import Asm6502.Parse
import Asm6502.Text.Edit

/-!
# Subtrees to reuse

Children of an old root can be taken over into the tree of an edited text.
Each edit drops the children it touches, ends included, and moves those behind
it; what remains are candidates for the places where they now start.
-/

namespace Asm6502

/-- A child of an old root that no edit has touched. -/
structure Candidate where
  /-- Where it starts now. -/
  start : Nat
  /-- Where it started in the old text; its diagnostics still count from
  there. -/
  oldStart : Nat
  tree : Tree
  diagnostics : List Diagnostic
deriving DecidableEq, Repr

namespace Candidate

def stop (candidate : Candidate) : Nat :=
  candidate.start + candidate.tree.length

/-- The diagnostics at the candidate's new place. -/
def movedDiagnostics (candidate : Candidate) : List Diagnostic :=
  candidate.diagnostics.map
    (Diagnostic.moved candidate.oldStart candidate.start)

def afterEdit? (edit : Edit) (candidate : Candidate) : Option Candidate :=
  if candidate.stop < edit.start then some candidate
  else if edit.oldBound < candidate.start then
    some
      { candidate with
        start := candidate.start - edit.oldBound + edit.newBound }
  else none

/-- Whether a diagnostic that starts at `offset` belongs to a tree at `start`.
At the very end of the text it belongs to the tree that ends there. -/
def owns (textLength start : Nat) (tree : Tree) (offset : Nat) : Bool :=
  start ≤ offset &&
    (offset < start + tree.length ||
      (offset == start + tree.length && offset == textLength))

/-- The nodes among consecutive trees, as candidates where they stand. -/
def ofTrees (textLength : Nat) (diagnostics : List Diagnostic) :
    (start : Nat) → List Tree → List Candidate
  | _, [] => []
  | start, tree :: rest =>
      let others :=
        ofTrees textLength diagnostics (start + tree.length) rest
      if tree.isNode then
        { start := start
          oldStart := start
          tree := tree
          diagnostics :=
            diagnostics.filter fun diagnostic =>
              owns textLength start tree diagnostic.start } :: others
      else others

/-- The children of an old root.  The last one of a parse that was cut short
ends where reading stopped, so it is left out. -/
def ofParse (old : Parse) : List Candidate :=
  let all :=
    ofTrees old.root.length old.diagnostics 0 old.root.children
  if old.cancelled then all.dropLast else all

/-- The candidates that are left by a list of edits. -/
def plan (old : Parse) (edits : List Edit) : List Candidate :=
  edits.foldl
    (fun candidates edit => candidates.filterMap (afterEdit? edit))
    (ofParse old)

/-- The candidate that starts at an offset and fits into the rest of the text,
and the candidates behind it. -/
def next? (offset : Nat) (rest : Bytes) (candidates : List Candidate) :
    Option (Candidate × List Candidate) :=
  match candidates.dropWhile fun candidate => candidate.start < offset with
  | [] => none
  | candidate :: others =>
      let length := candidate.tree.length
      if candidate.start = offset && 0 < length && rest.hasAtLeast length then
        some (candidate, others)
      else none

end Candidate
end Asm6502
