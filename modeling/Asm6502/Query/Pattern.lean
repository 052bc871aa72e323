import Asm6502.Kind
import Asm6502.Query.Token

/-!
# Patterns

A query is a list of patterns.  `(kind child*)` matches an element of a kind
whose children contain matches of the child patterns in order, not necessarily
side by side; `(_)` matches any named element, `_` any element, and a quoted
text a token with that text.  `@name` captures what the pattern before it
matched.
-/

namespace Asm6502
namespace Query

/-- What a single element has to be. -/
inductive Matcher where
  | kind (kind : Kind)
  /-- Any element of a named kind. -/
  | named
  /-- Any element. -/
  | any
  /-- A token with this text, ignoring ASCII case. -/
  | text (chars : List Char)
deriving DecidableEq, Repr

/-- A matcher with child patterns and the index of its capture. -/
inductive Pattern where
  | mk (matcher : Matcher) (capture? : Option Nat) (children : List Pattern)
deriving Repr

namespace Pattern

/-- The same pattern, captured. -/
def captured (index : Nat) : Pattern → Pattern
  | ⟨matcher, _, children⟩ => ⟨matcher, some index, children⟩

end Pattern
end Query

/-- A compiled query. -/
structure Query where
  patterns : List Query.Pattern
  /-- Names of captures in the order of their first use. -/
  names : List String
deriving Repr

namespace Query

def captureIndex? (query : Query) (name : String) : Option Nat :=
  query.names.findIdx? (· == name)

/-- What is reported about a query that compiles. -/
def summary (query : Query) : String :=
  "compiled query: " ++ toString query.patterns.length ++ " patterns, " ++
    toString query.names.length ++ " captures"

/-- Patterns nested deeper than this are refused. -/
def maxDepth : Nat := 64

/-- What is wrong with a query, and where. -/
inductive CompileError where
  | unexpected (text : String) (span : Span)
  | unexpectedEnd (span : Span)
  | unknownKind (name : String) (span : Span)
  | unclosed (span : Span)
  | tooDeep (span : Span)
deriving DecidableEq, Repr

namespace CompileError

def span : CompileError → Span
  | .unexpected _ span => span
  | .unexpectedEnd span => span
  | .unknownKind _ span => span
  | .unclosed span => span
  | .tooDeep span => span

def message : CompileError → String
  | .unexpected text _ => "unexpected `" ++ text ++ "`"
  | .unexpectedEnd _ => "unexpected end of query"
  | .unknownKind name _ => "unknown node kind `" ++ name ++ "`"
  | .unclosed _ => "unclosed `(`"
  | .tooDeep _ =>
      "patterns nest deeper than " ++ toString maxDepth ++ " levels"

end CompileError
end Query
end Asm6502
