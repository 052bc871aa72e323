import Asm6502.Span

/-!
# Diagnostics

A diagnostic is a message about a span of the text.  Diagnostics are listed by
where they start; those that start together keep the order in which they were
reported.
-/

namespace Asm6502

structure Diagnostic where
  message : String
  span : Span
deriving DecidableEq, Repr

namespace Diagnostic

def start (diagnostic : Diagnostic) : Nat :=
  diagnostic.span.start

/-- The diagnostic of a line that stands further to the right. -/
def shift (amount : Nat) (diagnostic : Diagnostic) : Diagnostic :=
  { diagnostic with span := diagnostic.span.shift amount }

/-- The diagnostic after its subtree has moved from `source` to `target`. -/
def moved (source target : Nat) (diagnostic : Diagnostic) : Diagnostic :=
  { diagnostic with span := diagnostic.span.moved source target }

/-- Insert a diagnostic that was reported before those of an ordered list. -/
def insert (diagnostic : Diagnostic) : List Diagnostic → List Diagnostic
  | [] => [diagnostic]
  | first :: rest =>
      if diagnostic.start ≤ first.start then diagnostic :: first :: rest
      else first :: insert diagnostic rest

/-- Order by start offset; equal starts stay in the order of the report. -/
def inOrder (diagnostics : List Diagnostic) : List Diagnostic :=
  diagnostics.foldr insert []

end Diagnostic
end Asm6502
