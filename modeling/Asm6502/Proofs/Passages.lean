import Asm6502.Proofs.LineShape
import Asm6502.Proofs.ReadingShift

/-!
# Passages

A passage is what stands at the top of a text: a line outside of every block, or
a whole block.  Cutting the lines of a text wherever no block is open gives its
passages, each read as if it stood at the start of a text.
-/

namespace Asm6502

theorem BlockKind.isBlock_nodeKind (block : BlockKind) : block.nodeKind.isBlock = true := by
  cases block <;> rfl

namespace Reading

open Token

/-- Cut lines into passages, going on with the one that is being read. -/
def passagesFrom (dialect : Dialect) : Reading → List (List Token) → List Reading
  | reading, [] => if reading.sketch.opened.isEmpty then [] else [reading.close]
  | reading, line :: lines =>
      let next := reading.addLine dialect line
      if next.sketch.opened.isEmpty then next :: passagesFrom dialect {} lines
      else passagesFrom dialect next lines

def passages (dialect : Dialect) (text : Bytes) : List Reading :=
  passagesFrom dialect {} (lines (Scan.scan dialect text))

/-- Inside a passage: nothing is settled yet, and no open block is empty. -/
structure Underway (sketch : Sketch OpenBlock) : Prop where
  settled : sketch.settled = []
  filled : ∀ entry ∈ sketch.opened, entry.2 ≠ []

/-- Trees that stand for some lines. -/
structure Holds (own : List (List Token)) (trees : List Tree) : Prop where
  leaves : Tree.allLeaves trees = own.flatten.map Token.pair
  lines : (Tree.allLineNodes trees).map Tree.leaves = own.map (List.map Token.pair)
  shape : ∀ tree ∈ trees, Tree.IsPassage tree

/-- The reading of some lines from the start of a text. -/
structure Reads (own : List (List Token)) (reading : Reading) : Prop where
  offset : reading.offset = totalLength own.flatten
  freshTokens : reading.freshTokens = own.flatten.length
  holds : Holds own reading.sketch.forest
  reported :
    ∀ diagnostic ∈ reading.diagnostics,
      diagnostic.span.Within reading.offset ∧
        (EndsLine own.flatten → diagnostic.start < reading.offset)
  keywords :
    ∀ openBlock ∈ reading.sketch.tags,
      openBlock.keyword.Within reading.offset ∧
        openBlock.keyword.start < reading.offset

/-- A passage has been read to its end: a single tree, and no block open. -/
structure IsPassage (own : List (List Token)) (tree : Tree) (reading : Reading) :
    Prop extends Reads own reading where
  sketch : reading.sketch = ⟨[tree], []⟩

theorem reads_empty : Reads [] {} where
  offset := rfl
  freshTokens := rfl
  holds := ⟨rfl, rfl, by simp [Sketch.forest]⟩
  reported := by simp
  keywords := by simp [Sketch.tags]

theorem underway_empty : Underway {} where
  settled := rfl
  filled := by simp

/-- Closing a block groups its lines. -/
theorem Holds.leave {own : List (List Token)} {sketch : Sketch OpenBlock}
    (holds : Holds own sketch.forest) (block : BlockKind) :
    Holds own (sketch.leave block.nodeKind).forest := by
  rcases Sketch.forest_leave sketch block.nodeKind with
    same | ⟨before, children, nonempty, split, closed⟩
  · rw [same]
    exact holds
  · have isBlock := block.isBlock_nodeKind
    rw [split] at holds
    rw [closed]
    refine ⟨?_, ?_, ?_⟩
    · rw [← holds.leaves]
      simp [Tree.allLeaves, Tree.leaves]
    · rw [← holds.lines]
      simp [Tree.allLineNodes, Tree.lineNodes_of_isBlock isBlock]
    · intro tree member
      rcases List.mem_append.mp member with old | new
      · exact holds.shape tree (List.mem_append_left _ old)
      · obtain rfl : tree = .node block.nodeKind children := by simpa using new
        exact .block isBlock nonempty fun child childIn =>
          holds.shape child (List.mem_append_right _ childIn)

theorem Holds.add {own : List (List Token)} {line : List Token}
    {sketch : Sketch OpenBlock} (holds : Holds own sketch.forest) {tree : Tree}
    (isLine : Tree.IsLine tree) (leaves : tree.leaves = line.map Token.pair) :
    Holds (own ++ [line]) (sketch.add tree).forest := by
  rw [Sketch.forest_add]
  refine ⟨?_, ?_, ?_⟩
  · simp [holds.leaves, Tree.allLeaves, leaves]
  · simp [holds.lines, Tree.allLineNodes, isLine.lineNodes, leaves]
  · intro other member
    rcases List.mem_append.mp member with old | new
    · exact holds.shape other old
    · obtain rfl : other = tree := by simpa using new
      exact .line isLine

theorem Underway.exists_innermost {sketch : Sketch OpenBlock} (underway : Underway sketch)
    (isOpen : sketch.opened ≠ []) :
    ∃ tag children outer, sketch = ⟨[], (tag, children) :: outer⟩ ∧ children ≠ [] ∧
      Underway ⟨[], outer⟩ := by
  obtain ⟨settled, opened⟩ := sketch
  obtain ⟨rfl, filled⟩ := underway
  obtain ⟨⟨tag, children⟩, outer, rfl⟩ := List.exists_cons_of_ne_nil isOpen
  obtain ⟨here, around⟩ := List.forall_mem_cons.mp filled
  exact ⟨tag, children, outer, rfl, here, rfl, around⟩

theorem Underway.inside {outer : List (OpenBlock × List Tree)} {children : List Tree}
    (underway : Underway ⟨[], outer⟩) (nonempty : children ≠ []) (tag : OpenBlock) :
    Underway ⟨[], (tag, children) :: outer⟩ :=
  ⟨rfl, List.forall_mem_cons.mpr ⟨nonempty, underway.filled⟩⟩

/-- Closing the innermost block of a passage ends the passage or leaves it
underway. -/
theorem underway_leave {sketch : Sketch OpenBlock} (underway : Underway sketch)
    (isOpen : sketch.opened ≠ []) (kind : Kind) :
    (∃ tree, sketch.leave kind = ⟨[tree], []⟩) ∨
      Underway (sketch.leave kind) ∧ (sketch.leave kind).opened ≠ [] := by
  obtain ⟨tag, children, outer, rfl, nonempty, around⟩ := underway.exists_innermost isOpen
  obtain ⟨child, others, rfl⟩ := List.exists_cons_of_ne_nil nonempty
  cases outer with
  | nil => exact .inl ⟨_, rfl⟩
  | cons entry outer =>
      obtain ⟨-, further⟩ := List.forall_mem_cons.mp around.filled
      have beyond : Underway ⟨[], outer⟩ := ⟨rfl, further⟩
      exact .inr ⟨beyond.inside (List.cons_ne_nil _ _) entry.1, List.cons_ne_nil _ _⟩

theorem underway_add {sketch : Sketch OpenBlock} (underway : Underway sketch)
    (isOpen : sketch.opened ≠ []) (tree : Tree) :
    Underway (sketch.add tree) ∧ (sketch.add tree).opened ≠ [] := by
  obtain ⟨tag, children, outer, rfl, -, around⟩ := underway.exists_innermost isOpen
  exact ⟨around.inside (List.cons_ne_nil _ _) tag, List.cons_ne_nil _ _⟩

theorem underway_wrap_add {sketch : Sketch OpenBlock} (underway : Underway sketch)
    (tree : Tree) (tag : OpenBlock) :
    Underway ((sketch.add tree).wrap tag) ∧
      ((sketch.add tree).wrap tag).opened ≠ [] := by
  by_cases isOpen : sketch.opened = []
  · have empty : sketch = ⟨[], []⟩ := by
      rw [← underway.settled, ← isOpen]
    subst empty
    exact ⟨underway.inside (List.cons_ne_nil _ _) tag, List.cons_ne_nil _ _⟩
  · obtain ⟨outerTag, children, outer, rfl, nonempty, around⟩ :=
      underway.exists_innermost isOpen
    exact ⟨(around.inside nonempty outerTag).inside (List.cons_ne_nil _ _) tag,
      List.cons_ne_nil _ _⟩

theorem underway_applyEdge {sketch : Sketch OpenBlock} (underway : Underway sketch)
    (offset : Nat) (tree : Tree) (edge? : Option BlockEdge) :
    (∃ whole, applyEdge offset (sketch.add tree) edge? = ⟨[whole], []⟩) ∨
      Underway (applyEdge offset (sketch.add tree) edge?) ∧
        (applyEdge offset (sketch.add tree) edge?).opened ≠ [] := by
  have added : sketch.add tree = ⟨[tree], []⟩ ∨
      Underway (sketch.add tree) ∧ (sketch.add tree).opened ≠ [] := by
    by_cases isOpen : sketch.opened = []
    · left
      rw [Sketch.add, isOpen, underway.settled]
    · exact .inr (underway_add underway isOpen tree)
  cases edge? with
  | none =>
      rcases added with closed | stillOpen
      · exact .inl ⟨tree, closed⟩
      · exact .inr stillOpen
  | some edge =>
      cases edge with
      | opens block keyword => exact .inr (underway_wrap_add underway tree _)
      | closes =>
          rcases added with closed | ⟨stillUnderway, stillOpen⟩
          · left
            exact ⟨tree, by rw [applyEdge, closed]; rfl⟩
          · obtain ⟨entry, outer, opened⟩ := List.exists_cons_of_ne_nil stillOpen
            simp only [applyEdge, Sketch.tag?, opened, List.head?_cons, Option.map_some]
            exact underway_leave stillUnderway stillOpen _

theorem applyEdge_cases (offset : Nat) (sketch : Sketch OpenBlock)
    (edge? : Option BlockEdge) :
    applyEdge offset sketch edge? = sketch ∨
      (∃ block keyword, edge? = some (.opens block keyword) ∧
        applyEdge offset sketch edge? =
          sketch.wrap ⟨block, keyword.shift offset⟩) ∨
      ∃ block : BlockKind,
        applyEdge offset sketch edge? = sketch.leave block.nodeKind := by
  cases edge? with
  | none => exact .inl rfl
  | some edge =>
      cases edge with
      | opens block keyword => exact .inr (.inl ⟨block, keyword, rfl, rfl⟩)
      | closes =>
          simp only [applyEdge]
          cases sketch.tag? with
          | none => exact .inl rfl
          | some openBlock => exact .inr (.inr ⟨openBlock.block, rfl⟩)

theorem applyEdge_closes_cases {sketch other : Sketch OpenBlock}
    (innermost : sketch.tag?.map OpenBlock.block = other.tag?.map OpenBlock.block)
    (offset offset' : Nat) :
    (applyEdge offset sketch (some .closes) = sketch ∧
        applyEdge offset' other (some .closes) = other) ∨
      ∃ kind, applyEdge offset sketch (some .closes) = sketch.leave kind ∧
        applyEdge offset' other (some .closes) = other.leave kind := by
  have closes (offset : Nat) (sketch : Sketch OpenBlock) :
      applyEdge offset sketch (some .closes) =
        (sketch.tag?.map OpenBlock.block).elim sketch fun block =>
          sketch.leave block.nodeKind := by
    rw [applyEdge]
    cases sketch.tag? <;> rfl
  rw [closes, closes, ← innermost]
  cases sketch.tag?.map OpenBlock.block with
  | none => exact .inl ⟨rfl, rfl⟩
  | some block => exact .inr ⟨_, rfl, rfl⟩

section

variable {own : List (List Token)} {line : List Token} {reading : Reading}
  (dialect : Dialect)

theorem length_pos_of_isLine (scanned : ∀ token ∈ line, Scan.IsScanned token)
    (isLine : IsLine line) : 0 < totalLength line := by
  obtain ⟨first, others, rfl⟩ := List.exists_cons_of_ne_nil isLine.nonempty
  have positive : 0 < first.length :=
    List.length_pos_iff.mpr (scanned first (by simp)).text_ne_nil
  rw [totalLength]
  omega

theorem keywords_addLine {lineLength : Nat} {edge? : Option BlockEdge}
    (positive : 0 < lineLength)
    (keywords : ∀ openBlock ∈ reading.sketch.tags,
      openBlock.keyword.Within reading.offset ∧
        openBlock.keyword.start < reading.offset)
    (opens : ∀ block keyword, edge? = some (.opens block keyword) →
      keyword.Within lineLength ∧ keyword.start < lineLength) (tree : Tree) :
    ∀ openBlock ∈ (applyEdge reading.offset (reading.sketch.add tree) edge?).tags,
      openBlock.keyword.Within (reading.offset + lineLength) ∧
        openBlock.keyword.start < reading.offset + lineLength := by
  have old : ∀ openBlock ∈ reading.sketch.tags,
      openBlock.keyword.Within (reading.offset + lineLength) ∧
        openBlock.keyword.start < reading.offset + lineLength := by
    intro openBlock member
    obtain ⟨⟨ordered, inside⟩, strict⟩ := keywords openBlock member
    exact ⟨⟨ordered, by omega⟩, by omega⟩
  rcases applyEdge_cases reading.offset (reading.sketch.add tree) edge? with
    same | ⟨block, keyword, isOpening, wrapped⟩ | ⟨block, left⟩
  · rw [same, Sketch.tags_add]
    exact old
  · rw [wrapped, Sketch.tags_wrap, Sketch.tags_add]
    intro openBlock member
    rcases List.mem_cons.mp member with rfl | member
    · obtain ⟨⟨ordered, inside⟩, strict⟩ := opens block keyword isOpening
      simp only [Span.shift]
      exact ⟨⟨by simp only; omega, by simp only; omega⟩, by omega⟩
    · exact old openBlock member
  · rw [left, Sketch.tags_leave, Sketch.tags_add]
    intro openBlock member
    exact old openBlock (List.mem_of_mem_tail member)

theorem Holds.applyEdge {sketch : Sketch OpenBlock} (holds : Holds own sketch.forest)
    (offset : Nat) (edge? : Option BlockEdge) :
    Holds own (applyEdge offset sketch edge?).forest := by
  rcases applyEdge_cases offset sketch edge? with
    same | ⟨block, keyword, -, wrapped⟩ | ⟨block, left⟩
  · rw [same]
    exact holds
  · rw [wrapped, Sketch.forest_wrap]
    exact holds
  · rw [left]
    exact holds.leave block

theorem Reads.addLine (reads : Reads own reading)
    (scanned : ∀ token ∈ line, Scan.IsScanned token) (isLine : IsLine line) :
    Reads (own ++ [line]) (reading.addLine dialect line) := by
  have read := Line.shape_read dialect reading.block? scanned isLine
  have positive := length_pos_of_isLine scanned isLine
  have flat : (own ++ [line]).flatten = own.flatten ++ line := by simp
  refine ⟨?_, ?_, ?_, ?_, ?_⟩
  · rw [flat, totalLength_append, ← reads.offset]
    rfl
  · rw [flat, List.length_append, ← reads.freshTokens]
    rfl
  · exact (reads.holds.add read.tree read.leaves).applyEdge _ _
  · intro diagnostic member
    simp only [Reading.addLine, List.mem_append, List.mem_reverse, List.mem_map] at member ⊢
    rcases member with ⟨original, isNew, rfl⟩ | old
    · obtain ⟨⟨ordered, inside⟩, strict⟩ := read.reported original isNew
      simp only [Diagnostic.start, Diagnostic.shift, Span.shift] at strict ⊢
      refine ⟨⟨by simp only; omega, by simp only; omega⟩, ?_⟩
      intro ends
      rw [flat] at ends
      have lineEnds := ends.of_append isLine.nonempty
      have before := strict lineEnds
      omega
    · obtain ⟨⟨ordered, inside⟩, -⟩ := reads.reported diagnostic old
      refine ⟨⟨ordered, by omega⟩, fun _ => ?_⟩
      simp only [Diagnostic.start]
      omega
  · exact keywords_addLine positive reads.keywords read.opens _

theorem Reads.leave (reads : Reads own reading) {openBlock : OpenBlock}
    (isOpen : openBlock ∈ reading.sketch.tags) (message : String) (block : BlockKind) :
    Reads own
      { reading with
        sketch := reading.sketch.leave block.nodeKind
        steps := .complete block.nodeKind :: reading.steps
        diagnostics := ⟨message, openBlock.keyword⟩ :: reading.diagnostics } where
  offset := reads.offset
  freshTokens := reads.freshTokens
  holds := reads.holds.leave block
  reported diagnostic member := by
    rcases List.mem_cons.mp member with rfl | old
    · obtain ⟨within, strict⟩ := reads.keywords openBlock isOpen
      exact ⟨within, fun _ => strict⟩
    · exact reads.reported diagnostic old
  keywords other member := by
    rw [Sketch.tags_leave] at member
    exact reads.keywords other (List.mem_of_mem_tail member)

theorem isPassage_closeBlocks {blocks : List OpenBlock} (reads : Reads own reading)
    (underway : Underway reading.sketch) (isOpen : reading.sketch.opened ≠ [])
    (tagsEq : reading.sketch.tags = blocks) :
    ∃ tree, IsPassage own tree (closeBlocks blocks reading) := by
  induction blocks generalizing reading with
  | nil => exact absurd (List.map_eq_nil_iff.mp tagsEq) isOpen
  | cons openBlock outer ih =>
      have innermost : openBlock ∈ reading.sketch.tags := by simp [tagsEq]
      have left := reads.leave innermost
        (Cause.unterminatedBlock openBlock.block).message openBlock.block
      have outerTags :
          (reading.sketch.leave openBlock.block.nodeKind).tags = outer := by
        rw [Sketch.tags_leave, tagsEq, List.tail_cons]
      rw [closeBlocks]
      rcases underway_leave underway isOpen openBlock.block.nodeKind with
        ⟨tree, closed⟩ | ⟨stillUnderway, stillOpen⟩
      · obtain rfl : outer = [] := by
          rw [← outerTags, closed]
          rfl
        exact ⟨tree, left, closed⟩
      · exact ih left stillUnderway stillOpen outerTags

theorem IsPassage.isClosed {tree : Tree} (passage : IsPassage own tree reading) :
    reading.IsClosed := by
  rw [IsClosed, passage.sketch]

theorem passagesFrom_cons (reading : Reading) (line : List Token)
    (lines : List (List Token)) :
    passagesFrom dialect reading (line :: lines) =
      if (reading.addLine dialect line).sketch.opened.isEmpty then
        reading.addLine dialect line :: passagesFrom dialect {} lines
      else passagesFrom dialect (reading.addLine dialect line) lines :=
  rfl

/-- The first passage takes some of the lines, and the others are cut as if
they began a text.  If there are others, what they are has no influence on the
passage. -/
theorem exists_cut {before lines : List (List Token)} {passage : Reading}
    {others : List Reading}
    (cut : passagesFrom dialect reading lines = passage :: others)
    (scanned : ∀ line ∈ lines, IsLine line ∧ ∀ token ∈ line, Scan.IsScanned token)
    (reads : Reads before reading) (underway : Underway reading.sketch) :
    ∃ own behind tree, lines = own ++ behind ∧
      IsPassage (before ++ own) tree passage ∧
      others = passagesFrom dialect {} behind ∧
      (behind ≠ [] → ∀ more, passagesFrom dialect reading (own ++ more) =
        passage :: passagesFrom dialect {} more) := by
  induction lines generalizing reading before with
  | nil =>
      rw [passagesFrom] at cut
      split at cut
      · contradiction
      · next isOpen =>
          obtain ⟨rfl, rfl⟩ := List.cons.inj cut
          obtain ⟨tree, whole⟩ := isPassage_closeBlocks reads underway
            (by simpa using isOpen) rfl
          refine ⟨[], [], tree, rfl, ?_, by simp [passagesFrom], by simp⟩
          rw [List.append_nil]
          exact whole
  | cons line lines ih =>
      obtain ⟨isLine, lineScanned⟩ := scanned line (by simp)
      have next := reads.addLine dialect lineScanned isLine
      have shape := underway_applyEdge underway reading.offset
        (Line.read dialect reading.block? line).tree
        (Line.read dialect reading.block? line).edge?
      rw [passagesFrom_cons] at cut
      rcases shape with ⟨tree, closed⟩ | ⟨stillUnderway, stillOpen⟩
      -- The first line that leaves no block open ends the passage.
      · have ended : (reading.addLine dialect line).sketch = ⟨[tree], []⟩ := closed
        have ends : (reading.addLine dialect line).sketch.opened.isEmpty = true := by
          rw [ended]
          rfl
        rw [if_pos ends] at cut
        obtain ⟨rfl, rfl⟩ := List.cons.inj cut
        refine ⟨[line], lines, tree, rfl, ⟨next, ended⟩, rfl, ?_⟩
        intro _ more
        rw [List.singleton_append, passagesFrom_cons, if_pos ends]
      · have goesOn :
            ¬ (reading.addLine dialect line).sketch.opened.isEmpty = true := by
          simpa [Reading.addLine] using stillOpen
        rw [if_neg goesOn] at cut
        obtain ⟨own, behind, tree, rfl, whole, rest, stable⟩ := ih cut
          (fun other member => scanned other (by simp [member])) next stillUnderway
        refine ⟨line :: own, behind, tree, rfl, by simpa using whole, rest, ?_⟩
        intro nonempty more
        rw [List.cons_append, passagesFrom_cons, if_neg goesOn]
        exact stable nonempty more

end

end Reading
end Asm6502
