import Asm6502.Proofs.DiagnosticOrder
import Asm6502.Proofs.ReadingCourse

/-!
# What a reading has read

A reading between passages holds the trees of the passages behind it and what
they report.  A candidate that describes the passage where it stands can be
taken over instead: the trees are the same, and so are the diagnostics at each
offset.
-/

namespace Asm6502
namespace Reading

variable {dialect : Dialect}

/-- The number of bytes that passages cover. -/
def totalOffset : List Reading → Nat
  | [] => 0
  | passage :: others => passage.offset + totalOffset others

def treesOf (passages : List Reading) : List Tree :=
  passages.flatMap fun passage => passage.sketch.trees

/-- What a passage that starts at an offset reports, in order. -/
def reportAt (offset : Nat) (passage : Reading) : List Diagnostic :=
  passage.diagnostics.reverse.map (Diagnostic.shift offset)

/-- What consecutive passages report, one after the other. -/
def reportFrom : (offset : Nat) → List Reading → List Diagnostic
  | _, [] => []
  | offset, passage :: others =>
      reportAt offset passage ++ reportFrom (offset + passage.offset) others

theorem totalOffset_append (first second : List Reading) :
    totalOffset (first ++ second) = totalOffset first + totalOffset second := by
  induction first with
  | nil => simp [totalOffset]
  | cons passage others ih => simp [totalOffset, ih, Nat.add_assoc]

theorem reportFrom_append (offset : Nat) (first second : List Reading) :
    reportFrom offset (first ++ second) =
      reportFrom offset first ++ reportFrom (offset + totalOffset first) second := by
  induction first generalizing offset with
  | nil => simp [reportFrom, totalOffset]
  | cons passage others ih => simp [reportFrom, totalOffset, ih, Nat.add_assoc]

theorem treesOf_append (first second : List Reading) :
    treesOf (first ++ second) = treesOf first ++ treesOf second :=
  List.flatMap_append

theorem passages_drop {text : Bytes} {before others : List Reading}
    (cut : passages dialect text = before ++ others) :
    passages dialect (text.drop (totalOffset before)) = others := by
  induction before generalizing text with
  | nil => exact cut
  | cons passage before ih =>
      rw [List.cons_append] at cut
      rw [totalOffset, ← List.drop_drop]
      exact ih (firstPassage_of_cons cut).2.symm

theorem totalOffset_passages (dialect : Dialect) (text : Bytes) :
    totalOffset (passages dialect text) = text.length := by
  induction text using passagesInduct dialect with
  | nil => rfl
  | cons text own tree passage first cut ih =>
      have inside := first.offset_le
      rw [cut, totalOffset, ih, List.length_drop]
      omega

/-- One passage of a text among the others. -/
theorem firstPassage_of_split {text : Bytes} {before after : List Reading}
    {passage : Reading} (cut : passages dialect text = before ++ passage :: after) :
    ∃ own tree,
      FirstPassage dialect (text.drop (totalOffset before)) own tree passage :=
  (firstPassage_of_cons (passages_drop cut)).1

theorem firstPassage_of_mem {text : Bytes} {passage : Reading}
    (member : passage ∈ passages dialect text) :
    ∃ rest own tree, FirstPassage dialect rest own tree passage := by
  obtain ⟨before, after, cut⟩ := List.append_of_mem member
  exact ⟨_, firstPassage_of_split cut⟩

theorem totalLength_treesOf {text : Bytes} {items : List Reading}
    (subset : ∀ passage ∈ items, passage ∈ passages dialect text) :
    Tree.totalLength (treesOf items) = totalOffset items := by
  induction items with
  | nil => rfl
  | cons passage others ih =>
      obtain ⟨rest, own, tree, first⟩ := firstPassage_of_mem (subset passage (by simp))
      have alone : treesOf (passage :: others) = tree :: treesOf others := by
        simp [treesOf, first.whole.sketch, Sketch.trees]
      rw [alone, Tree.totalLength, totalOffset, first.whole.length_tree,
        ih fun other member => subset other (by simp [member])]

end Reading

namespace Candidate

open Reading

/-- The candidate is the passage that stands at its place in a text. -/
def Describes (dialect : Dialect) (text : Bytes) (candidate : Candidate) : Prop :=
  ∃ passage others,
    passages dialect (text.drop candidate.start) = passage :: others ∧
      passage.sketch = ⟨[candidate.tree], []⟩ ∧
      candidate.diagnostics = Diagnostic.inOrder (reportAt candidate.oldStart passage)

theorem moved_shift {diagnostic : Diagnostic}
    (ordered : diagnostic.span.start ≤ diagnostic.span.stop) (source target : Nat) :
    (diagnostic.shift source).moved source target = diagnostic.shift target := by
  have length : diagnostic.span.stop + source - (diagnostic.span.start + source) =
      diagnostic.span.stop - diagnostic.span.start := by omega
  simp only [Diagnostic.moved, Diagnostic.shift, Span.moved, Span.shift, Span.length,
    Nat.add_sub_cancel, length]
  congr 2
  omega

theorem map_moved_reportAt {rest : Bytes} {own : List (List Token)} {tree : Tree}
    {passage : Reading} {dialect : Dialect}
    (first : FirstPassage dialect rest own tree passage) (source target : Nat) :
    (Diagnostic.inOrder (reportAt source passage)).map (Diagnostic.moved source target) =
      Diagnostic.inOrder (reportAt target passage) := by
  rw [reportAt, reportAt, ← Diagnostic.map_shift_inOrder, ← Diagnostic.map_shift_inOrder,
    List.map_map]
  apply List.map_congr_left
  intro diagnostic member
  rw [Diagnostic.mem_inOrder, List.mem_reverse] at member
  obtain ⟨within, -⟩ := first.whole.reported diagnostic member
  exact moved_shift within.start_le_stop _ _

theorem agree_movedDiagnostics {rest : Bytes} {own : List (List Token)} {tree : Tree}
    {passage : Reading} {dialect : Dialect} {candidate : Candidate}
    (first : FirstPassage dialect rest own tree passage)
    (same : candidate.diagnostics =
      Diagnostic.inOrder (reportAt candidate.oldStart passage)) :
    Diagnostic.Agree candidate.movedDiagnostics (reportAt candidate.start passage) := by
  rw [movedDiagnostics, same, map_moved_reportAt first]
  exact Diagnostic.agree_inOrder _

end Candidate

namespace Reading

/-- The second reading is the first one, and has read some passages since. -/
structure HasRead (items : List Reading) (before after : Reading) : Prop where
  closed : after.IsClosed
  offset : after.offset = before.offset + totalOffset items
  trees : after.sketch.trees = before.sketch.trees ++ treesOf items
  report :
    Diagnostic.Agree after.diagnostics.reverse
      (before.diagnostics.reverse ++ reportFrom before.offset items)

theorem HasRead.nil {reading : Reading} (closed : reading.IsClosed) :
    HasRead [] reading reading where
  closed := closed
  offset := rfl
  trees := by simp [treesOf]
  report _ := by simp [reportFrom]

theorem HasRead.append {first second : List Reading} {start middle stop : Reading}
    (read : HasRead first start middle) (next : HasRead second middle stop) :
    HasRead (first ++ second) start stop where
  closed := next.closed
  offset := by rw [next.offset, read.offset, totalOffset_append, Nat.add_assoc]
  trees := by rw [next.trees, read.trees, treesOf_append, List.append_assoc]
  report := by
    rw [reportFrom_append, ← List.append_assoc]
    refine next.report.trans (read.report.append ?_)
    rw [read.offset]
    exact fun _ => rfl

theorem trees_of_isClosed_add {reading : Reading} (closed : reading.IsClosed)
    (tree : Tree) : (reading.sketch.add tree).trees = reading.sketch.trees ++ [tree] := by
  rw [IsClosed] at closed
  simp [Sketch.add, Sketch.trees, closed]

theorem hasRead_followedBy {dialect : Dialect} {text : Bytes} {own : List (List Token)}
    {tree : Tree}
    {passage : Reading} (first : FirstPassage dialect text own tree passage)
    (reading : Reading) :
    HasRead [passage] reading (reading.followedBy passage) where
  closed := isClosed_followedBy first.whole.isClosed reading
  offset := rfl
  trees := by simp [followedBy, Sketch.onto, Sketch.trees, treesOf]
  report _ := by simp [followedBy, reportFrom, reportAt]

theorem length_of_sketch {dialect : Dialect} {text : Bytes} {own : List (List Token)}
    {tree other : Tree}
    {passage : Reading} (first : FirstPassage dialect text own tree passage)
    (sketch : passage.sketch = ⟨[other], []⟩) : other.length = passage.offset := by
  have same : [tree] = [other] :=
    congrArg Sketch.settled (first.whole.sketch.symm.trans sketch)
  rw [← (List.cons.inj same).1, first.whole.length_tree]

theorem hasRead_splice {dialect : Dialect} {text : Bytes} {own : List (List Token)}
    {tree : Tree}
    {reading passage : Reading} {candidate : Candidate}
    (closed : reading.IsClosed)
    (first : FirstPassage dialect text own tree passage)
    (start : candidate.start = reading.offset)
    (sketch : passage.sketch = ⟨[candidate.tree], []⟩)
    (diagnostics : candidate.diagnostics =
      Diagnostic.inOrder (reportAt candidate.oldStart passage))
    (others : List Candidate) :
    HasRead [passage] reading (reading.splice candidate others) where
  closed := isClosed_splice closed candidate others
  offset := by
    simp [splice, totalOffset, length_of_sketch first sketch]
  trees := by
    rw [splice, trees_of_isClosed_add closed]
    simp [treesOf, sketch, Sketch.trees]
  report := by
    have moved := Candidate.agree_movedDiagnostics first diagnostics
    rw [start] at moved
    simp only [splice, List.reverse_append, List.reverse_reverse, reportFrom,
      List.append_nil]
    exact Diagnostic.Agree.append (fun _ => rfl) moved

/-- A candidate that is taken over stands for the passage that is next. -/
theorem exists_passage_of_splice {text whole : Bytes} {reading : Reading}
    {candidate : Candidate} (closed : reading.IsClosed)
    (rest : text = whole.drop reading.offset) (start : candidate.start = reading.offset)
    (describes : candidate.Describes dialect whole) (others : List Candidate) :
    ∃ passage, passages dialect text =
        passage :: passages dialect (text.drop candidate.tree.length) ∧
      passage.sketch = ⟨[candidate.tree], []⟩ ∧
        HasRead [passage] reading (reading.splice candidate others) := by
  obtain ⟨passage, behind, cut, sketch, diagnostics⟩ := describes
  rw [start, ← rest] at cut
  obtain ⟨⟨own, tree, first⟩, behindEq⟩ := firstPassage_of_cons cut
  refine ⟨passage, ?_, sketch, hasRead_splice closed first start sketch diagnostics others⟩
  rw [cut, behindEq, length_of_sketch first sketch]

/-- With candidates that describe the text, a course reads its passages, all of
them unless it is stopped. -/
theorem hasRead_of_course {stopAfter : Option Nat} {text whole : Bytes}
    {reading last : Reading} (course : Course dialect stopAfter text reading last)
    (closed : reading.IsClosed) (rest : text = whole.drop reading.offset)
    (describe : ∀ candidate ∈ reading.candidates, candidate.Describes dialect whole) :
    ∃ items others, passages dialect text = items ++ others ∧
      HasRead items reading last ∧
      (last.isStopped stopAfter = false → others = []) := by
  induction course with
  | ended reading => exact ⟨[], [], rfl, .nil closed, fun _ => rfl⟩
  | @stopped text reading stopped =>
      refine ⟨[], passages dialect text, rfl, .nil closed, ?_⟩
      intro runs
      rw [stopped] at runs
      contradiction
  | @splice text reading last candidate remaining runs found course ih =>
      obtain ⟨before, split, -, start, -, -⟩ := Candidate.next?_eq_some found
      have remain : ∀ other ∈ candidate :: remaining, other ∈ reading.candidates := by
        intro other member
        rw [split]
        exact List.mem_append_right _ member
      obtain ⟨passage, cut, -, step⟩ := exists_passage_of_splice closed rest start
        (describe candidate (remain candidate (by simp))) remaining
      obtain ⟨items, left, cutLater, read, all⟩ := ih step.closed
        (by rw [rest, List.drop_drop]; rfl)
        (fun other member => describe other (remain other (by simp_all [Reading.splice])))
      refine ⟨passage :: items, left, ?_, step.append read, all⟩
      rw [cut, cutLater]
      rfl
  | @passage text reading passage last others runs found cut course ih =>
      obtain ⟨⟨own, tree, first⟩, othersEq⟩ := firstPassage_of_cons cut
      have step := hasRead_followedBy first reading
      obtain ⟨items, left, cutLater, read, all⟩ := ih step.closed
        (by rw [rest, List.drop_drop]; rfl) describe
      refine ⟨passage :: items, left, ?_, step.append read, all⟩
      rw [cut, othersEq, cutLater]
      rfl

end Reading
end Asm6502
