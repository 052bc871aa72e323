/-!
# Spans

A span is a range of byte offsets: `start` inclusive, `stop` exclusive.
-/

namespace Asm6502

structure Span where
  start : Nat
  stop : Nat
deriving DecidableEq, Repr, Inhabited

namespace Span

def empty (offset : Nat) : Span :=
  ⟨offset, offset⟩

def length (span : Span) : Nat :=
  span.stop - span.start

/-- The span further to the right by a number of bytes. -/
def shift (amount : Nat) (span : Span) : Span :=
  ⟨span.start + amount, span.stop + amount⟩

/-- The span after what stands at `source` has moved to `target`. -/
def moved (source target : Nat) (span : Span) : Span :=
  ⟨span.start - source + target, span.start - source + target + span.length⟩

/-- Both ends and everything between. -/
def touches (span : Span) (offset : Nat) : Bool :=
  span.start ≤ offset && offset ≤ span.stop

/-- The byte at an offset belongs to the span. -/
def contains (span : Span) (offset : Nat) : Bool :=
  span.start ≤ offset && offset < span.stop

/-- Every offset of the inner span lies inside the outer one. -/
def covers (outer inner : Span) : Bool :=
  outer.start ≤ inner.start && inner.stop ≤ outer.stop

/-- How many bytes a list of spans covers, taken one by one. -/
def totalLength : List Span → Nat
  | [] => 0
  | span :: rest => span.length + totalLength rest

def render (span : Span) : String :=
  toString span.start ++ ".." ++ toString span.stop

end Span
end Asm6502
