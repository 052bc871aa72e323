import Asm6502.Proofs.ExchangedLines
import Asm6502.Proofs.TwinReadings

/-!
# Texts with an exchanged list

The lines in front of a list are read as before, and so are those behind it, which only
move.  So where a list is an argument of a call, the trees of two texts that differ in the
list alone are one frame, and the same faults are reported in the same order.
-/

namespace Asm6502

open List (Forall₂)

theorem Sketch.map_map {τ σ ρ : Type} (sketch : Sketch τ) (f : τ → σ) (g : Tree → Tree)
    (f' : σ → ρ) (g' : Tree → Tree) :
    (sketch.map f g).map f' g' = sketch.map (f' ∘ f) (g' ∘ g) := by
  simp [map, Function.comp_def]

/-- Two sketches are one frame in which each has put its own part. -/
structure Sketch.Frames (across : Nat → Nat → Prop) (part part' : Tree)
    (leaves : List (Kind × Nat)) (frame : Sketch (OpenBlock × OpenBlock))
    (sketch other : Sketch OpenBlock) : Prop where
  sketch_eq : sketch = frame.map Prod.fst (Tree.fillWith part)
  other_eq : other = frame.map Prod.snd (Tree.fillWith part')
  leaves : Tree.allLeaves frame.forest = leaves
  blocks : ∀ pair ∈ frame.tags,
    pair.1.block = pair.2.block ∧ across pair.1.keyword.start pair.2.keyword.start

namespace Sketch.Frames

variable {across : Nat → Nat → Prop} {part part' : Tree} {leaves : List (Kind × Nat)}
  {frame : Sketch (OpenBlock × OpenBlock)} {sketch other : Sketch OpenBlock}
  (frames : Frames across part part' leaves frame sketch other)
include frames

theorem add (tree : Tree) :
    Frames across part part' (leaves ++ tree.leaves) (frame.add tree)
      (sketch.add (Tree.fillWith part tree)) (other.add (Tree.fillWith part' tree)) where
  sketch_eq := by rw [frames.sketch_eq, map_add]
  other_eq := by rw [frames.other_eq, map_add]
  leaves := by
    rw [forest_add, Tree.allLeaves_append, frames.leaves, Tree.allLeaves, Tree.allLeaves,
      List.append_nil]
  blocks := by
    rw [tags_add]
    exact frames.blocks

theorem wrap {openBlock openBlock' : OpenBlock} (block : openBlock.block = openBlock'.block)
    (keyword : across openBlock.keyword.start openBlock'.keyword.start) :
    Frames across part part' leaves (frame.wrap (openBlock, openBlock'))
      (sketch.wrap openBlock) (other.wrap openBlock') where
  sketch_eq := by rw [frames.sketch_eq, map_wrap]
  other_eq := by rw [frames.other_eq, map_wrap]
  leaves := by rw [forest_wrap, frames.leaves]
  blocks := by
    rw [tags_wrap]
    intro pair member
    rcases List.mem_cons.mp member with rfl | outer
    · exact ⟨block, keyword⟩
    · exact frames.blocks pair outer

theorem leave (kind : Kind) :
    Frames across part part' leaves (frame.leave kind) (sketch.leave kind)
      (other.leave kind) where
  sketch_eq := by rw [frames.sketch_eq, map_leave _ (Tree.fillWith_node _)]
  other_eq := by rw [frames.other_eq, map_leave _ (Tree.fillWith_node _)]
  leaves := by rw [allLeaves_forest_leave, frames.leaves]
  blocks := by
    rw [tags_leave]
    exact fun pair member => frames.blocks pair (List.mem_of_mem_tail member)

/-- The innermost open blocks are the same. -/
theorem map_block_tag? :
    sketch.tag?.map OpenBlock.block = other.tag?.map OpenBlock.block := by
  have blocks := frames.blocks
  rw [frames.sketch_eq, frames.other_eq, tag?_map, tag?_map, tag?_eq_head?]
  cases tags : frame.tags with
  | nil => rfl
  | cons pair outer =>
      have same := (blocks pair (by rw [tags]; exact List.mem_cons_self)).1
      exact congrArg some same

theorem applyEdge {inLine : Nat → Nat → Prop} {edge? edge?' : Option BlockEdge}
    (edges : BlockEdge.Across inLine edge? edge?') {offset offset' : Nat}
    (moved : ∀ ⦃start start' : Nat⦄, inLine start start' →
      across (start + offset) (start' + offset')) :
    ∃ frame', Frames across part part' leaves frame' (Reading.applyEdge offset sketch edge?)
      (Reading.applyEdge offset' other edge?') := by
  cases edges with
  | none => exact ⟨frame, frames⟩
  | opens block keyword => exact ⟨_, frames.wrap rfl (moved keyword)⟩
  | closes =>
      rcases Reading.applyEdge_closes_cases frames.map_block_tag? offset offset' with
        ⟨same, same'⟩ | ⟨kind, left, left'⟩
      · rw [same, same']
        exact ⟨frame, frames⟩
      · rw [left, left']
        exact ⟨_, frames.leave kind⟩

end Sketch.Frames

namespace Reading

open Token

variable {exchange : Exchange} {earlier taken line : List Token} {reading other : Reading}

/-- Two texts that differ in a list of a line have been read up to the end of that line or
of a later one. -/
structure Exchanged (exchange : Exchange) (earlier taken : List Token)
    (reading other : Reading) : Prop where
  offset : reading.offset =
    totalLength earlier + exchange.position + exchange.length + totalLength taken
  otherOffset : other.offset =
    totalLength earlier + exchange.position + exchange.otherLength + totalLength taken
  frames : ∃ frame, Sketch.Frames
    (Across (totalLength earlier + exchange.position) exchange.length exchange.otherLength)
    exchange.part exchange.otherPart
    ((earlier ++ exchange.front).map pair ++ (.eof, 0) :: taken.map pair) frame
    reading.sketch other.sketch
  reports : Forall₂
    (Diagnostic.Across (totalLength earlier + exchange.position) exchange.length
      exchange.otherLength) reading.diagnostics other.diagnostics

theorem Exchanged.block? (exchanged : Exchanged exchange earlier taken reading other) :
    reading.block? = other.block? := by
  obtain ⟨frame, frames⟩ := exchanged.frames
  exact frames.map_block_tag?

theorem forall₂_shift {Same Moved : Diagnostic → Diagnostic → Prop}
    {diagnostics others : List Diagnostic} {offset offset' : Nat}
    (moved : ∀ ⦃diagnostic other : Diagnostic⦄, Same diagnostic other →
      Moved (diagnostic.shift offset) (other.shift offset'))
    (alike : Forall₂ Same diagnostics others) :
    Forall₂ Moved ((diagnostics.map (Diagnostic.shift offset)).reverse)
      ((others.map (Diagnostic.shift offset')).reverse) :=
  List.forall₂_reverse_iff.mpr (List.rel_map moved alike)

theorem edges_refl (edge? : Option BlockEdge) : BlockEdge.Across (· = ·) edge? edge? := by
  cases edge? with
  | none => exact .none
  | some edge =>
      cases edge with
      | opens block keyword => exact .opens block rfl
      | closes => exact .closes

/-- A line behind the list is read as before, further on or further in front. -/
theorem Exchanged.addLine (exchanged : Exchanged exchange earlier taken reading other)
    (dialect : Dialect) (isLine : IsLine line)
    (scanned : ∀ token ∈ line, Scan.IsScanned token) :
    Exchanged exchange earlier (taken ++ line) (reading.addLine dialect line)
      (other.addLine dialect line) := by
  have sameBlock := exchanged.block?
  have moved (start : Nat) : Across (totalLength earlier + exchange.position) exchange.length
      exchange.otherLength (start + reading.offset) (start + other.offset) := by
    rw [exchanged.offset, exchanged.otherOffset, Nat.add_comm start, Nat.add_comm start,
      Nat.add_assoc _ (totalLength taken), Nat.add_assoc _ (totalLength taken)]
    exact .behind _
  obtain ⟨frame, frames⟩ := exchanged.frames
  have leaves := Line.leaves_read dialect reading.block? scanned isLine
  have whole (part : Tree) : Tree.fillWith part (Line.read dialect reading.block? line).tree =
      (Line.read dialect reading.block? line).tree := by
    refine Tree.fillWith_of_whole part ?_
    rw [leaves]
    exact Tree.whole_map_pair fun token member => (scanned token member).kind_ne_eof
  have added := frames.add (Line.read dialect reading.block? line).tree
  rw [whole, whole, leaves, List.append_assoc, List.cons_append, ← List.map_append] at added
  refine ⟨?_, ?_, ?_, ?_⟩
  · rw [Reading.addLine, totalLength_append, ← Nat.add_assoc, ← exchanged.offset]
  · rw [Reading.addLine, totalLength_append, ← Nat.add_assoc, ← exchanged.otherOffset]
  · rw [Reading.addLine, Reading.addLine, ← sameBlock]
    refine added.applyEdge (edges_refl _) ?_
    rintro start _ rfl
    exact moved start
  · rw [Reading.addLine, Reading.addLine, ← sameBlock]
    refine List.rel_append (forall₂_shift ?_ (List.forall₂_same.mpr fun _ _ => rfl))
      exchanged.reports
    rintro diagnostic _ rfl
    exact ⟨rfl, moved diagnostic.start⟩

theorem Exchanged.addLines {lines : List (List Token)} (dialect : Dialect)
    (exchanged : Exchanged exchange earlier taken reading other)
    (shapes : ∀ line ∈ lines, IsLine line ∧ ∀ token ∈ line, Scan.IsScanned token) :
    Exchanged exchange earlier (taken ++ lines.flatten) (addLines dialect lines reading)
      (addLines dialect lines other) := by
  induction lines generalizing taken reading other with
  | nil => simpa [Reading.addLines] using exchanged
  | cons line lines ih =>
      obtain ⟨isLine, scanned⟩ := shapes line List.mem_cons_self
      have behind := ih (exchanged.addLine dialect isLine scanned)
        fun other member => shapes other (List.mem_cons_of_mem _ member)
      rw [List.append_assoc] at behind
      exact behind

theorem Reads.frames (exchange : Exchange) {own : List (List Token)}
    (reads : Reads own reading) (earlierWhole : ∀ token ∈ own.flatten, token.kind ≠ .eof) :
    Sketch.Frames
      (Across (totalLength own.flatten + exchange.position) exchange.length exchange.otherLength)
      exchange.part exchange.otherPart (own.flatten.map pair)
      (reading.sketch.map (fun openBlock => (openBlock, openBlock)) id) reading.sketch
      reading.sketch := by
  have wholeForest : Tree.Whole (Tree.allLeaves reading.sketch.forest) := by
    rw [reads.holds.leaves]
    exact Tree.whole_map_pair earlierWhole
  have unchanged (part : Tree) :
      reading.sketch = Sketch.map id (Tree.fillWith part) reading.sketch :=
    (Sketch.map_fillWith_of_whole part wholeForest).symm
  refine ⟨?_, ?_, ?_, ?_⟩
  · rw [Sketch.map_map]
    exact unchanged _
  · rw [Sketch.map_map]
    exact unchanged _
  · rw [Sketch.forest_map, List.map_id, reads.holds.leaves]
  · rw [Sketch.tags_map]
    rintro pair member
    obtain ⟨openBlock, isOpen, rfl⟩ := List.mem_map.mp member
    have inside := (reads.keywords openBlock isOpen).2
    rw [reads.offset] at inside
    exact ⟨rfl, .before (by dsimp only; omega)⟩

/-- The line of the list is read behind the same lines. -/
theorem Reads.exchanged_addLine {own : List (List Token)} (reads : Reads own reading)
    (dialect : Dialect)
    (earlierWhole : ∀ token ∈ own.flatten, token.kind ≠ .eof)
    (alike : exchange.ReadAlike (Line.read dialect reading.block? exchange.line)
      (Line.read dialect reading.block? exchange.other)) :
    Exchanged exchange own.flatten exchange.behind (reading.addLine dialect exchange.line)
      (reading.addLine dialect exchange.other) := by
  have totals (list : List Token) : totalLength
      (exchange.front ++ (Token.braced list ++ exchange.behind)) =
        exchange.position + totalLength (Token.braced list) + totalLength exchange.behind := by
    rw [totalLength_append, totalLength_append, Exchange.position, Nat.add_assoc]
  have moved ⦃first second : Nat⦄ (across : exchange.Across first second) :
      Across (totalLength own.flatten + exchange.position) exchange.length exchange.otherLength
        (first + reading.offset) (second + reading.offset) := by
    rw [reads.offset, Nat.add_comm (totalLength own.flatten)]
    exact across.shift _
  obtain ⟨frame, leaves, tree, tree'⟩ := alike.tree
  have added := (reads.frames exchange earlierWhole).add frame
  rw [← tree, ← tree', leaves, ← List.append_assoc, ← List.map_append] at added
  refine ⟨?_, ?_, added.applyEdge alike.edges moved, ?_⟩
  · rw [Reading.addLine, Exchange.line, totals, reads.offset, Exchange.length]
    dsimp only
    omega
  · rw [Reading.addLine, Exchange.other, totals, reads.offset, Exchange.otherLength]
    dsimp only
    omega
  · refine List.rel_append (forall₂_shift ?_ alike.diagnostics)
      (List.forall₂_same.mpr fun diagnostic member => ⟨rfl, .before ?_⟩)
    · rintro diagnostic other across
      exact ⟨across.message, moved across.start⟩
    · have within := (reads.reported diagnostic member).1
      rw [reads.offset] at within
      have ordered := within.1
      have inside := within.2
      rw [Diagnostic.start]
      omega

theorem Exchanged.closeBlocks {pairs : List (OpenBlock × OpenBlock)}
    (blocks : ∀ pair ∈ pairs, pair.1.block = pair.2.block ∧
      Across (totalLength earlier + exchange.position) exchange.length exchange.otherLength
        pair.1.keyword.start pair.2.keyword.start)
    (exchanged : Exchanged exchange earlier taken reading other) :
    Exchanged exchange earlier taken (closeBlocks (pairs.map Prod.fst) reading)
      (closeBlocks (pairs.map Prod.snd) other) := by
  induction pairs generalizing reading other with
  | nil => exact exchanged
  | cons pair pairs ih =>
      obtain ⟨frame, frames⟩ := exchanged.frames
      obtain ⟨block, keyword⟩ := blocks pair List.mem_cons_self
      refine ih (fun pair member => blocks pair (List.mem_cons_of_mem _ member))
        ⟨exchanged.offset, exchanged.otherOffset, ?_, ?_⟩
      · rw [block]
        exact ⟨_, frames.leave _⟩
      · rw [block]
        exact .cons ⟨rfl, keyword⟩ exchanged.reports

theorem Exchanged.close (exchanged : Exchanged exchange earlier taken reading other) :
    Exchanged exchange earlier taken reading.close other.close := by
  obtain ⟨frame, frames⟩ := exchanged.frames
  have closed := exchanged.closeBlocks frames.blocks
  rwa [← Sketch.tags_map Prod.fst (Tree.fillWith exchange.part), ← frames.sketch_eq,
    ← Sketch.tags_map Prod.snd (Tree.fillWith exchange.otherPart), ← frames.other_eq] at closed

/-- The closed trees are one frame with either list in it. -/
theorem Exchanged.exists_plug (exchanged : Exchanged exchange earlier taken reading other)
    (isClosed : reading.IsClosed) (frontWhole : ∀ token ∈ earlier, token.kind ≠ .eof)
    (backWhole : ∀ token ∈ taken, token.kind ≠ .eof) :
    ∃ above, Crumb.offset above = totalLength earlier + exchange.position ∧
      Tree.node .sourceFile reading.sketch.trees = Crumb.plug above exchange.part ∧
        Tree.node .sourceFile other.sketch.trees = Crumb.plug above exchange.otherPart := by
  obtain ⟨frame, frames⟩ := exchanged.frames
  have closed : frame.opened = [] := by
    have closed : reading.sketch.opened = [] := isClosed
    rw [frames.sketch_eq] at closed
    exact List.map_eq_nil_iff.mp closed
  have leaves : (Tree.node .sourceFile frame.trees).leaves =
      (earlier ++ exchange.front).map pair ++ (.eof, 0) :: taken.map pair := by
    rw [Tree.leaves, ← Sketch.forest_of_opened_nil closed, frames.leaves]
  have front : Tree.Whole ((earlier ++ exchange.front).map pair) :=
    Tree.whole_map_pair (List.forall_mem_append.mpr ⟨frontWhole, exchange.front_whole⟩)
  obtain ⟨above, offset, filled⟩ :=
    Tree.exists_plug_of_leaves leaves front (Tree.whole_map_pair backWhole)
  refine ⟨above, ?_, ?_, ?_⟩
  · rw [offset, Tree.leafLength_map_pair, totalLength_append, Exchange.position]
  · rw [← filled, Tree.fillWith_node, ← Sketch.trees_map Prod.fst, ← frames.sketch_eq]
  · rw [← filled, Tree.fillWith_node, ← Sketch.trees_map Prod.snd, ← frames.other_eq]

theorem Exchanged.messages (exchanged : Exchanged exchange earlier taken reading other) :
    (Diagnostic.inOrder reading.diagnostics.reverse).map Diagnostic.message =
      (Diagnostic.inOrder other.diagnostics.reverse).map Diagnostic.message := by
  have nonempty (list : List Token) : 0 < totalLength (braced list) := by
    rw [totalLength_braced]
    exact Nat.succ_pos _
  have ordered := Diagnostic.forall₂_inOrder
    (fun _ _ _ _ first second =>
      first.start.le_iff (nonempty _) (nonempty _) second.start)
    (List.forall₂_reverse_iff.mpr exchanged.reports)
  rw [← List.forall₂_eq_eq_eq, List.forall₂_map_left_iff, List.forall₂_map_right_iff]
  exact ordered.imp fun _ _ across => across.message

section Astray

variable {position : Nat} (dialect : Dialect)

theorem hasAstray_applyEdge {sketch : Sketch OpenBlock}
    (astray : Tree.HasAstray position sketch.forest) (offset : Nat) (edge? : Option BlockEdge) :
    Tree.HasAstray position (applyEdge offset sketch edge?).forest := by
  rcases applyEdge_cases offset sketch edge? with same | ⟨_, _, -, wrapped⟩ | ⟨block, left⟩
  · rwa [same]
  · rwa [wrapped, Sketch.forest_wrap]
  · rw [left]
    exact Sketch.hasAstray_leave astray _

theorem hasAstray_addLines (lines : List (List Token))
    (astray : Tree.HasAstray position reading.sketch.forest) :
    Tree.HasAstray position (addLines dialect lines reading).sketch.forest := by
  refine addLines_induct (motive := fun _ reading =>
    Tree.HasAstray position reading.sketch.forest) astray fun line _ _ reading astray => ?_
  refine hasAstray_applyEdge ?_ _ _
  rw [Sketch.forest_add]
  exact astray.append _

theorem hasAstray_closeBlocks (blocks : List OpenBlock)
    (astray : Tree.HasAstray position reading.sketch.forest) :
    Tree.HasAstray position (closeBlocks blocks reading).sketch.forest := by
  induction blocks generalizing reading with
  | nil => exact astray
  | cons openBlock outer ih => exact ih (Sketch.hasAstray_leave astray _)

end Astray

theorem reads_addLines (dialect : Dialect) {lines : List (List Token)}
    (shapes : ∀ line ∈ lines, IsLine line ∧ ∀ token ∈ line, Scan.IsScanned token) :
    Reads lines (addLines dialect lines {}) := by
  refine addLines_induct (motive := Reads) reads_empty fun line member own reading reads => ?_
  obtain ⟨isLine, scanned⟩ := shapes line member
  exact reads.addLine dialect scanned isLine

/-- Two texts that differ in a list of one line are read alike, or the list is no argument
of a call. -/
theorem exchanged_cases (dialect : Dialect) {earlier later : List (List Token)}
    (judged : exchange.JudgedAlike)
    (shapes : ∀ line ∈ earlier ++ exchange.line :: later,
      IsLine line ∧ ∀ token ∈ line, Scan.IsScanned token) :
    Tree.HasAstray (totalLength earlier.flatten + exchange.position)
        (addLines dialect (earlier ++ exchange.line :: later) {}).close.sketch.forest ∨
      Exchanged exchange earlier.flatten (exchange.behind ++ later.flatten)
        (addLines dialect (earlier ++ exchange.line :: later) {}).close
        (addLines dialect (earlier ++ exchange.other :: later) {}).close := by
  have split (line : List Token) : addLines dialect (earlier ++ line :: later) {} =
      addLines dialect later ((addLines dialect earlier {}).addLine dialect line) := by
    rw [addLines, List.foldl_append]
    rfl
  have reads : Reads earlier (addLines dialect earlier {}) :=
    reads_addLines dialect fun line member => shapes line (List.mem_append_left _ member)
  obtain ⟨isLine, scanned⟩ := shapes exchange.line (by simp)
  rw [split, split]
  rcases exchange.read_cases judged dialect (addLines dialect earlier {}).block? isLine scanned
    with astray | alike
  · left
    refine hasAstray_closeBlocks _ (hasAstray_addLines dialect later (hasAstray_applyEdge ?_ _ _))
    have behind := astray.behind (addLines dialect earlier {}).sketch.forest
    rwa [← Tree.leafLength_allLeaves, reads.holds.leaves, Tree.leafLength_map_pair,
      ← Sketch.forest_add] at behind
  · right
    have earlierWhole : ∀ token ∈ earlier.flatten, token.kind ≠ .eof := by
      intro token member
      obtain ⟨line, lineIn, tokenIn⟩ := List.mem_flatten.mp member
      exact ((shapes line (List.mem_append_left _ lineIn)).2 token tokenIn).kind_ne_eof
    refine ((reads.exchanged_addLine dialect earlierWhole alike).addLines dialect ?_).close
    exact fun line member => shapes line
      (List.mem_append_right _ (List.mem_cons_of_mem _ member))

end Reading
end Asm6502
