import Asm6502.Span
import Asm6502.Tree

/-!
# Places in a tree

A place is an element of a tree together with its surroundings: for every
enclosing node its kind and the siblings on either side.  Moving to a neighbour
or to the parent therefore needs nothing but the place itself, and where it
starts is the length of all that stands before it.
-/

namespace Asm6502

/-- The surroundings of an element inside its parent. -/
structure Crumb where
  /-- The parent's kind. -/
  kind : Kind
  /-- Earlier siblings, nearest first. -/
  before : List Tree
  /-- Later siblings, nearest first. -/
  after : List Tree
deriving DecidableEq, Repr

/-- An element of a tree with its surroundings, innermost first. -/
structure Place where
  focus : Tree
  above : List Crumb := []
deriving DecidableEq, Repr

namespace Crumb

/-- The parent of an element in these surroundings. -/
def fill (crumb : Crumb) (focus : Tree) : Tree :=
  .node crumb.kind (crumb.before.reverse ++ focus :: crumb.after)

/-- How many bytes stand before an element in the given surroundings. -/
def offset : List Crumb → Nat
  | [] => 0
  | crumb :: outer => Tree.totalLength crumb.before + offset outer

end Crumb

namespace Place

def kind (place : Place) : Kind :=
  place.focus.kind

def isNode (place : Place) : Bool :=
  place.focus.isNode

def isToken (place : Place) : Bool :=
  place.focus.isToken

def isTrivia (place : Place) : Bool :=
  place.kind.isTrivia

def length (place : Place) : Nat :=
  place.focus.length

def start (place : Place) : Nat :=
  Crumb.offset place.above

def stop (place : Place) : Nat :=
  place.start + place.length

def span (place : Place) : Span :=
  let start := place.start
  ⟨start, start + place.length⟩

def depth (place : Place) : Nat :=
  place.above.length

/-- The position among the parent's children; zero at the root. -/
def index (place : Place) : Nat :=
  (place.above.head?.map fun crumb => crumb.before.length).getD 0

def render (place : Place) : String :=
  place.kind.spelling ++ "@" ++ place.span.render

def parent? (place : Place) : Option Place :=
  match place.above with
  | [] => none
  | crumb :: outer => some ⟨crumb.fill place.focus, outer⟩

/-- The enclosing nodes of an element with the given surroundings, innermost
first. -/
def enclosing (focus : Tree) : List Crumb → List Place
  | [] => []
  | crumb :: outer =>
      ⟨crumb.fill focus, outer⟩ :: enclosing (crumb.fill focus) outer

/-- The place itself and its enclosing nodes, innermost first. -/
def ancestors (place : Place) : List Place :=
  place :: enclosing place.focus place.above

def root (place : Place) : Place :=
  ⟨place.above.foldl (fun focus crumb => crumb.fill focus) place.focus, []⟩

/-- The places of consecutive children, the ones before them given nearest
first. -/
def among (kind : Kind) (outer : List Crumb) :
    (before : List Tree) → List Tree → List Place
  | _, [] => []
  | before, tree :: after =>
      ⟨tree, ⟨kind, before, after⟩ :: outer⟩ ::
        among kind outer (tree :: before) after

def children (place : Place) : List Place :=
  match place.focus with
  | .token _ _ => []
  | .node kind trees => among kind place.above [] trees

def nodes (place : Place) : List Place :=
  place.children.filter isNode

def tokenChildren (place : Place) : List Place :=
  place.children.filter isToken

def significant (place : Place) : List Place :=
  place.children.filter fun child => !child.isTrivia

def child? (place : Place) (index : Nat) : Option Place :=
  place.children[index]?

/-- Follow child positions down from a place. -/
def descend? : List Nat → Place → Option Place
  | [], place => some place
  | index :: path, place => (place.child? index).bind (descend? path)

mutual

/-- A tree in the given surroundings and everything below it, parents before
children, in front of further places. -/
def preorderOnto (outer : List Crumb) : Tree → (rest : List Place) → List Place
  | .token kind length, rest => ⟨.token kind length, outer⟩ :: rest
  | .node kind trees, rest =>
      ⟨.node kind trees, outer⟩ :: preorderAmong kind outer [] trees rest

def preorderAmong (kind : Kind) (outer : List Crumb) :
    (before : List Tree) → List Tree → (rest : List Place) → List Place
  | _, [], rest => rest
  | before, tree :: after, rest =>
      preorderOnto (⟨kind, before, after⟩ :: outer) tree
        (preorderAmong kind outer (tree :: before) after rest)

end

/-- The place and everything below it, parents before children. -/
def preorder (place : Place) : List Place :=
  preorderOnto place.above place.focus []

def tokens (place : Place) : List Place :=
  place.preorder.filter isToken

def firstToken? (place : Place) : Option Place :=
  place.tokens.head?

def next? (place : Place) : Option Place :=
  match place.above with
  | ⟨kind, before, tree :: after⟩ :: outer =>
      some ⟨tree, ⟨kind, place.focus :: before, after⟩ :: outer⟩
  | _ => none

def previous? (place : Place) : Option Place :=
  match place.above with
  | ⟨kind, tree :: before, after⟩ :: outer =>
      some ⟨tree, ⟨kind, before, place.focus :: after⟩ :: outer⟩
  | _ => none

def laterSiblings (place : Place) : List Place :=
  match place.above with
  | [] => []
  | crumb :: outer =>
      among crumb.kind outer (place.focus :: crumb.before) crumb.after

/-- Places of earlier siblings, nearest first, before the given later ones. -/
def amongEarlier (kind : Kind) (outer : List Crumb) :
    (after : List Tree) → List Tree → List Place
  | _, [] => []
  | after, tree :: before =>
      ⟨tree, ⟨kind, before, after⟩ :: outer⟩ ::
        amongEarlier kind outer (tree :: after) before

def earlierSiblings (place : Place) : List Place :=
  match place.above with
  | [] => []
  | crumb :: outer =>
      amongEarlier crumb.kind outer (place.focus :: crumb.after) crumb.before

def nextNode? (place : Place) : Option Place :=
  place.laterSiblings.find? isNode

def previousNode? (place : Place) : Option Place :=
  place.earlierSiblings.find? isNode

end Place
end Asm6502
