import Asm6502.Proofs.PassageLists

/-!
# Snapshots

A parse that was read with candidates that describe its text is a snapshot: it
consists of the first passages of the text, all of them unless it was cut short.
The candidates that a snapshot offers describe its text in turn.
-/

namespace Asm6502

theorem split_of_mem_dropLast {α : Type} {items : List α} {item : α}
    (member : item ∈ items.dropLast) :
    ∃ earlier later, items = earlier ++ item :: later ∧ later ≠ [] := by
  have nonempty : items ≠ [] := by
    rintro rfl
    contradiction
  obtain ⟨earlier, later, split⟩ := List.append_of_mem member
  refine ⟨earlier, later ++ [items.getLast nonempty], ?_, by simp⟩
  calc
    items = items.dropLast ++ [items.getLast nonempty] :=
      (List.dropLast_concat_getLast nonempty).symm
    _ = _ := by rw [split]; simp

namespace Candidate

theorem ofTrees_split {textLength start : Nat} {diagnostics : List Diagnostic}
    {trees : List Tree} {earlier later : List Candidate} {candidate : Candidate}
    (split : ofTrees textLength diagnostics start trees = earlier ++ candidate :: later) :
    ∃ before tree after, trees = before ++ tree :: after ∧
      candidate =
        { start := start + Tree.totalLength before
          oldStart := start + Tree.totalLength before
          tree := tree
          diagnostics := diagnostics.filter fun diagnostic =>
            owns textLength (start + Tree.totalLength before) tree diagnostic.start } ∧
      later = ofTrees textLength diagnostics
        (start + Tree.totalLength before + tree.length) after := by
  induction trees generalizing start earlier with
  | nil => simp [ofTrees] at split
  | cons tree rest ih =>
      rw [ofTrees] at split
      split at split
      · cases earlier with
        | nil =>
            obtain ⟨rfl, rfl⟩ := List.cons.inj split
            exact ⟨[], tree, rest, rfl, rfl, rfl⟩
        | cons first earlier =>
            obtain ⟨before, own, after, rfl, candidateEq, laterEq⟩ :=
              ih (List.cons.inj split).2
            refine ⟨tree :: before, own, after, rfl, ?_, ?_⟩
            · rw [candidateEq, Tree.totalLength, Nat.add_assoc]
            · rw [laterEq, Tree.totalLength, Nat.add_assoc start]
      · obtain ⟨before, own, after, rfl, candidateEq, laterEq⟩ := ih split
        refine ⟨tree :: before, own, after, rfl, ?_, ?_⟩
        · rw [candidateEq, Tree.totalLength, Nat.add_assoc]
        · rw [laterEq, Tree.totalLength, Nat.add_assoc start]

/-- A candidate is one of the children of the old root, and not the last one if
the old parse was cut short. -/
theorem ofParse_split {old : Parse} {candidate : Candidate}
    (member : candidate ∈ ofParse old) :
    ∃ earlier later,
      ofTrees old.root.length old.diagnostics 0 old.root.children =
          earlier ++ candidate :: later ∧
        (old.cancelled = true → later ≠ []) := by
  unfold ofParse at member
  dsimp only at member
  split at member
  · obtain ⟨earlier, later, split, notLast⟩ := split_of_mem_dropLast member
    exact ⟨earlier, later, split, fun _ => notLast⟩
  · next complete =>
      obtain ⟨earlier, later, split⟩ := List.append_of_mem member
      exact ⟨earlier, later, split, fun cancelled => absurd cancelled complete⟩

end Candidate

namespace Reading

variable {dialect : Dialect}

/-- The parse that consists of some passages. -/
def snapshotOf (text : Bytes) (items : List Reading) (cancelled : Bool) : Parse where
  text := text.take (totalOffset items)
  root := .node .sourceFile (treesOf items)
  diagnostics := Diagnostic.inOrder (reportFrom 0 items)
  cancelled := cancelled

/-- A parse is a snapshot of a text. -/
def IsSnapshot (dialect : Dialect) (text : Bytes) (parse : Parse) : Prop :=
  ∃ items others, passages dialect text = items ++ others ∧
    (parse.cancelled = false → others = []) ∧
    parse = snapshotOf text items parse.cancelled

theorem length_root_snapshotOf {text : Bytes} {items others : List Reading}
    (cut : passages dialect text = items ++ others) (cancelled : Bool) :
    (snapshotOf text items cancelled).root.length = totalOffset items := by
  have subset : ∀ passage ∈ items, passage ∈ passages dialect text := by
    intro passage member
    rw [cut]
    exact List.mem_append_left _ member
  rw [snapshotOf, Tree.length, totalLength_treesOf subset]

theorem isSnapshot_ofText (stopAfter : Option Nat) {candidates : List Candidate}
    {text : Bytes}
    (describe : ∀ candidate ∈ candidates, candidate.Describes dialect text) :
    IsSnapshot dialect text
      ((ofText dialect stopAfter candidates text).toParse stopAfter text) := by
  obtain ⟨items, others, cut, read, all⟩ :=
    hasRead_of_course (course_ofText dialect stopAfter candidates text) rfl rfl describe
  refine ⟨items, others, cut, all, ?_⟩
  have trees : (ofText dialect stopAfter candidates text).sketch.trees = treesOf items :=
    read.trees
  have report := Diagnostic.inOrder_congr read.report
  have length := length_root_snapshotOf cut false
  rw [snapshotOf] at length
  simp only [toParse, snapshotOf, trees, Parse.mk.injEq, true_and, and_true]
  exact ⟨by rw [length], by simpa using report⟩

end Reading
end Asm6502
