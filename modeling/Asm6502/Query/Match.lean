import Asm6502.Query.Pattern
import Asm6502.Tree.Arena

/-!
# Matching

A pattern matches an element regardless of its siblings, so taking the first
match for each child pattern in turn finds the leftmost choice of children, and
finds one whenever there is one.  Captures are noted on the way and taken back
where a pattern fails.
-/

namespace Asm6502
namespace Query

/-- An element under the index of its capture. -/
structure Capture where
  index : Nat
  element : Handle
deriving DecidableEq, Repr

/-- A matching pattern and what it captured, parents before children. -/
structure Match where
  pattern : Nat
  captures : List Capture
deriving DecidableEq, Repr

/-- The elements that were captured under an index. -/
def Match.elements (found : Match) (index : Nat) : List Handle :=
  (found.captures.filter fun capture => capture.index == index).map
    Capture.element

/-- Equality of texts up to ASCII case. -/
def sameText (left right : List Char) : Bool :=
  left.map Char.toLower == right.map Char.toLower

/-- Whether a single element is what a matcher asks for. -/
def Matcher.accepts (arena : Arena) (element : Handle) : Matcher → Bool
  | .kind wanted => arena.kind element == wanted
  | .named => (arena.kind element).isNamed
  | .any => true
  | .text chars =>
      element.isToken && sameText (arena.elementText element).toList chars

/-- What notes captures while it tells whether an element matches: whether it
does, and all captures noted then. -/
abbrev Trial :=
  Handle → (noted : List Capture) → Bool × List Capture

/-- Try elements in order.  If one matches, the elements behind it; in any case,
all captures noted then. -/
def Trial.first (trial : Trial) :
    List Handle → (noted : List Capture) → Option (List Handle) × List Capture
  | [], noted => (none, noted)
  | element :: rest, noted =>
      match trial element noted with
      | (true, noted) => (some rest, noted)
      | (false, noted) => first trial rest noted

namespace Pattern

mutual

/-- Whether a pattern matches an element.  If it does, its own capture and those
of its child patterns have been noted, and none has if it does not. -/
def tryAt (arena : Arena) : Pattern → Trial
  | ⟨matcher, capture?, children⟩, element, noted =>
      if matcher.accepts arena element then
        let own := noted ++
          (capture?.map fun index => Capture.mk index element).toList
        if children.isEmpty then (true, own)
        else if element.isToken then (false, own.take noted.length)
        else
          match tryAll arena children (arena.significant element) own with
          | (true, all) => (true, all)
          | (false, all) => (false, all.take noted.length)
      else (false, noted)

/-- Whether patterns match elements in order, each the first one behind the one
before that it matches, and all captures noted then. -/
def tryAll (arena : Arena) : List Pattern → List Handle →
    (noted : List Capture) → Bool × List Capture
  | [], _, noted => (true, noted)
  | pattern :: rest, elements, noted =>
      match Trial.first (tryAt arena pattern) elements noted with
      | (none, noted) => (false, noted)
      | (some behind, noted) => tryAll arena rest behind noted

end

/-- The captures of a pattern at an element, if it matches. -/
def match? (arena : Arena) (pattern : Pattern) (element : Handle) :
    Option (List Capture) :=
  match pattern.tryAt arena element [] with
  | (true, captures) => some captures
  | (false, _) => none

end Pattern
end Query
end Asm6502
