import Asm6502.Tree.Builder

/-!
# Workshops

A workshop builds one tree after another and can put finished trees into later
ones.  It keeps track of which results are one and the same tree, and of which
share a child because the same finished tree was put right below both roots.
-/

namespace Asm6502

/-- A finished tree with its history. -/
structure FinishedTree where
  tree : Tree
  /-- The same number means the same tree, put in rather than built again. -/
  identity : Nat
  /-- The identities of the trees that were put right below the root. -/
  parts : List Nat
deriving DecidableEq, Repr

namespace FinishedTree

def isSame (left right : FinishedTree) : Bool :=
  left.identity == right.identity

/-- Some child node is one and the same in both. -/
def sharesChild (left right : FinishedTree) : Bool :=
  (isSame left right && left.tree.children.any Tree.isNode) ||
    left.parts.any right.parts.contains

end FinishedTree

inductive BuildStep where
  | start (kind : Kind)
  | token (kind : Kind) (length : Nat)
  | finish
  /-- Put in the finished tree with this number. -/
  | reuse (index : Nat)
  /-- Finish the tree and begin another one. -/
  | done
deriving DecidableEq, Repr

/-- The answer to a step. -/
inductive BuildAnswer where
  | carriedOut
  | refused (error : BuildError)
  | built (tree : Tree)
deriving DecidableEq, Repr

structure Workshop where
  builder : Builder := {}
  finished : List FinishedTree := []
  /-- Identities put right below the outermost node of the current tree. -/
  parts : List Nat := []
  /-- The tree that was put in outside of every node. -/
  whole? : Option FinishedTree := none
deriving Repr

namespace Workshop

/-- Put in a finished tree, remembering where it stands. -/
def putIn (part : FinishedTree) (workshop : Workshop) : Workshop :=
  let builder := workshop.builder.reuse part.tree
  match workshop.builder.sketch.opened.length with
  | 0 => { workshop with builder := builder, whole? := some part }
  | 1 =>
      { workshop with
        builder := builder
        parts := workshop.parts ++ [part.identity] }
  | _ => { workshop with builder := builder }

/-- The current tree as a finished one. -/
def finishedAs (tree : Tree) (workshop : Workshop) : FinishedTree :=
  workshop.whole?.getD
    { tree := tree
      identity := workshop.finished.length
      parts := workshop.parts }

/-- Carry out one step.  A refused `finish` changes nothing; a refused `done`
gives the current tree up. -/
def step (workshop : Workshop) : BuildStep → Workshop × BuildAnswer
  | .start kind =>
      ({ workshop with builder := workshop.builder.start kind }, .carriedOut)
  | .token kind length =>
      ({ workshop with builder := workshop.builder.token kind length },
        .carriedOut)
  | .finish =>
      match workshop.builder.finish with
      | .ok builder => ({ workshop with builder := builder }, .carriedOut)
      | .error error => (workshop, .refused error)
  | .reuse index =>
      match workshop.finished[index]? with
      | some part => (workshop.putIn part, .carriedOut)
      | none => (workshop, .carriedOut)
  | .done =>
      match workshop.builder.done with
      | .ok tree =>
          ({ finished := workshop.finished ++ [workshop.finishedAs tree] },
            .built tree)
      | .error error => ({ finished := workshop.finished }, .refused error)

def run (workshop : Workshop) : List BuildStep → Workshop × List BuildAnswer
  | [] => (workshop, [])
  | first :: rest =>
      let (workshop, answer) := workshop.step first
      let (workshop, answers) := workshop.run rest
      (workshop, answer :: answers)

end Workshop
end Asm6502
