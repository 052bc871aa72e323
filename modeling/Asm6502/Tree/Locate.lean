import Asm6502.Tree.Place

/-!
# Looking up positions

Three ways to find an element by offset: the tokens at an offset, the smallest
element around a span, and the smallest node around an offset.
-/

namespace Asm6502
namespace Place

/-- The tokens at an offset. -/
inductive TokensAt where
  | none
  | single (token : Place)
  /-- The offset is a boundary inside the searched element. -/
  | between (left right : Place)
deriving DecidableEq, Repr

namespace TokensAt

def toList : TokensAt → List Place
  | .none => []
  | .single token => [token]
  | .between left right => [left, right]

/-- The token, or the left one of two. -/
def leftBiased (found : TokensAt) : Option Place :=
  found.toList.head?

/-- The token, or the right one of two. -/
def rightBiased (found : TokensAt) : Option Place :=
  found.toList.getLast?

end TokensAt

/-- The last of some consecutive tokens that ends at or before an offset, where
it ends, and the token behind it.  `last?` ends where the tokens start. -/
def tokensAround (offset : Nat) : (last? : Option Place) → (start : Nat) →
    (tokens : List Place) → Option Place × Nat × Option Place
  | last?, start, [] => (last?, start, none)
  | last?, start, token :: rest =>
      let stop := start + token.length
      if stop ≤ offset then tokensAround offset (some token) stop rest
      else (last?, start, some token)

/-- The tokens below a place at an offset: both neighbours of a boundary
between two of them. -/
def tokensAt (place : Place) (offset : Nat) : TokensAt :=
  let span := place.span
  if span.touches offset then
    let (last?, boundary, next?) :=
      tokensAround offset none span.start place.tokens
    let left := if boundary == offset && span.start < offset then last? else none
    let right := if boundary ≤ offset then next? else none
    match left, right with
    | some left, some right => .between left right
    | some token, none => .single token
    | none, some token => .single token
    | none, none => .none
  else .none

mutual

/-- Go down into the first accepted child, as far as there is one, and tell
where the tree ends.  `accepts` is asked about a tree and its span. -/
def sinkInto (accepts : Tree → Span → Bool) (outer : List Crumb) :
    Tree → (start : Nat) → Place × Nat
  | .token kind length, start => (⟨.token kind length, outer⟩, start + length)
  | .node kind trees, start =>
      let (found?, stop) := sinkAmong accepts kind outer [] trees start
      (found?.getD ⟨.node kind trees, outer⟩, stop)

def sinkAmong (accepts : Tree → Span → Bool) (kind : Kind)
    (outer : List Crumb) : (before : List Tree) → List Tree → (start : Nat) →
    Option Place × Nat
  | _, [], start => (none, start)
  | before, tree :: after, start =>
      let (found, middle) :=
        sinkInto accepts (⟨kind, before, after⟩ :: outer) tree start
      let (later?, stop) :=
        sinkAmong accepts kind outer (tree :: before) after middle
      (if accepts tree ⟨start, middle⟩ then some found else later?, stop)

end

/-- Go down from a place into the first accepted child, as far as there is
one. -/
def sink (accepts : Tree → Span → Bool) (place : Place) : Place :=
  (sinkInto accepts place.above place.focus place.start).1

/-- The smallest element below a place that covers a span, or the place
itself. -/
def covering (place : Place) (span : Span) : Place :=
  place.sink fun _ own => own.covers span

/-- The smallest node of a whole tree around an offset.  The end of the text
counts as covered by the nodes that end there. -/
def nodeAt? (root : Tree) (offset : Nat) : Option Place :=
  let length := root.length
  let covers (span : Span) : Bool :=
    span.contains offset || (span.stop == offset && offset == length)
  if covers ⟨0, length⟩ then
    some (Place.sink (fun tree span => tree.isNode && covers span) ⟨root, []⟩)
  else none

end Place
end Asm6502
