import Asm6502.Tree

/-!
# Sketches

A sketch is a forest under construction.  Some nodes are still open; each of
them carries a tag that says what it waits for, and the children it has so far.
The kind of a node is settled when it is closed.  A node can also be opened
around the child that was added last, which is how an operator finds its left
operand and a block its opening line.
-/

namespace Asm6502

/-- A forest with open nodes, tagged by `τ`. -/
structure Sketch (τ : Type) where
  /-- Trees outside of every open node, latest first. -/
  settled : List Tree := []
  /-- Open nodes, innermost first, each with its children, latest first. -/
  opened : List (τ × List Tree) := []
deriving Repr

namespace Sketch

variable {τ : Type}

/-- What the innermost open node waits for. -/
def tag? (sketch : Sketch τ) : Option τ :=
  sketch.opened.head?.map Prod.fst

def add (sketch : Sketch τ) (tree : Tree) : Sketch τ :=
  match sketch.opened with
  | [] => { sketch with settled := tree :: sketch.settled }
  | (tag, children) :: outer =>
      { sketch with opened := (tag, tree :: children) :: outer }

def addAll (sketch : Sketch τ) (trees : List Tree) : Sketch τ :=
  trees.foldl add sketch

def enter (sketch : Sketch τ) (tag : τ) : Sketch τ :=
  { sketch with opened := (tag, []) :: sketch.opened }

def wrap (sketch : Sketch τ) (tag : τ) : Sketch τ :=
  match sketch.opened with
  | [] =>
      { settled := sketch.settled.drop 1
        opened := [(tag, sketch.settled.take 1)] }
  | (outerTag, children) :: outer =>
      { sketch with
        opened :=
          (tag, children.take 1) :: (outerTag, children.drop 1) :: outer }

/-- Close the innermost open node.  A node without children disappears. -/
def leave (sketch : Sketch τ) (kind : Kind) : Sketch τ :=
  match sketch.opened with
  | [] => sketch
  | (_, []) :: outer => { sketch with opened := outer }
  | (_, children) :: outer =>
      add { sketch with opened := outer } (.node kind children.reverse)

def trees (sketch : Sketch τ) : List Tree :=
  sketch.settled.reverse

end Sketch
end Asm6502
