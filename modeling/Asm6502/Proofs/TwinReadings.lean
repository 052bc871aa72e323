import Asm6502.Proofs.DiagnosticOrder
import Asm6502.Proofs.TwinDrafts
import Asm6502.Proofs.WrittenTexts

/-!
# Two texts read in step

Where the tokens of two texts agree one by one in what the grammar looks at, their lines
are read in step, and so are the blocks around them.  The trees of the two texts have the
same shape, and their diagnostics are the same faults at the same tokens, in the same
order: positions of one text correspond to positions of the other in an increasing way.
-/

namespace Asm6502

open List (Forall₂)

namespace Token

variable {tokens others before before' : List Token}

theorem startAt_lt_startAt (nonempty : ∀ token ∈ tokens, token.text ≠ []) {first last : Nat}
    (bounded : last ≤ tokens.length) (less : first < last) :
    startAt tokens first < startAt tokens last := by
  obtain ⟨count, rfl⟩ := Nat.exists_eq_add_of_lt less
  rw [Nat.add_assoc, startAt_add]
  have inside : first < tokens.length := by omega
  simp only [List.drop_eq_getElem_cons inside, startAt, List.take_succ_cons, totalLength]
  have positive : 0 < tokens[first].length :=
    List.length_pos_iff.mpr (nonempty _ (List.getElem_mem inside))
  omega

theorem startAt_le_startAt_iff (nonempty : ∀ token ∈ tokens, token.text ≠ [])
    {first last : Nat} (firstIn : first ≤ tokens.length) (lastIn : last ≤ tokens.length) :
    startAt tokens first ≤ startAt tokens last ↔ first ≤ last := by
  constructor
  · intro ordered
    by_contra later
    have less := startAt_lt_startAt nonempty firstIn (Nat.lt_of_not_le later)
    omega
  · intro ordered
    rcases Nat.eq_or_lt_of_le ordered with rfl | less
    · exact Nat.le_refl _
    · exact Nat.le_of_lt (startAt_lt_startAt nonempty lastIn less)

end Token

namespace Span.Match

variable {tokens others before before' : List Token} {span other : Span}

theorem append (isMatch : Span.Match tokens others span other)
    (sameLength : tokens.length = others.length) (more more' : List Token) :
    Span.Match (tokens ++ more) (others ++ more') span other := by
  obtain ⟨first, last, firstIn, lastIn, rfl, rfl⟩ := isMatch
  refine ⟨first, last, ?_, ?_, ?_, ?_⟩
  · rw [List.length_append]; omega
  · rw [List.length_append]; omega
  · rw [Token.spanAt, Token.spanAt, Token.startAt_append _ _ firstIn,
      Token.startAt_append _ _ lastIn]
  · rw [Token.spanAt, Token.spanAt, Token.startAt_append _ _ (sameLength ▸ firstIn),
      Token.startAt_append _ _ (sameLength ▸ lastIn)]

theorem shift (isMatch : Span.Match tokens others span other)
    (sameLength : before.length = before'.length) :
    Span.Match (before ++ tokens) (before' ++ others)
      (span.shift (Token.totalLength before)) (other.shift (Token.totalLength before')) := by
  obtain ⟨first, last, firstIn, lastIn, rfl, rfl⟩ := isMatch
  refine ⟨before.length + first, before.length + last, ?_, ?_, ?_, ?_⟩
  · rw [List.length_append]; omega
  · rw [List.length_append]; omega
  · simp only [Token.spanAt, Span.shift, Token.startAt_length_add]
    rw [Nat.add_comm, Nat.add_comm (Token.startAt tokens last)]
  · simp only [Token.spanAt, Span.shift, sameLength, Token.startAt_length_add]
    rw [Nat.add_comm, Nat.add_comm (Token.startAt others last)]

end Span.Match

namespace Diagnostic

variable {Same : Token → Token → Prop} {tokens others before before' : List Token}
  {diagnostic other : Diagnostic}

theorem Twin.append (twin : Twin Same tokens others diagnostic other)
    (sameLength : tokens.length = others.length) (more more' : List Token) :
    Twin Same (tokens ++ more) (others ++ more') diagnostic other :=
  ⟨twin.wording, twin.span.append sameLength more more'⟩

theorem Twin.shift (twin : Twin Same tokens others diagnostic other)
    (sameLength : before.length = before'.length) :
    Twin Same (before ++ tokens) (before' ++ others)
      (diagnostic.shift (Token.totalLength before)) (other.shift (Token.totalLength before')) :=
  ⟨twin.wording, twin.span.shift sameLength⟩

/-- Ordering diagnostics looks at nothing but how their starts compare. -/
theorem forall₂_inOrder {Rel : Diagnostic → Diagnostic → Prop}
    (order : ∀ ⦃first first' second second' : Diagnostic⦄, Rel first first' →
      Rel second second' → (first.start ≤ second.start ↔ first'.start ≤ second'.start))
    {diagnostics others : List Diagnostic} (pairwise : Forall₂ Rel diagnostics others) :
    Forall₂ Rel (inOrder diagnostics) (inOrder others) := by
  have insert {diagnostic other : Diagnostic} (related : Rel diagnostic other)
      {diagnostics others : List Diagnostic} (pairwise : Forall₂ Rel diagnostics others) :
      Forall₂ Rel (diagnostic.insert diagnostics) (other.insert others) := by
    induction pairwise with
    | nil => exact .cons related .nil
    | cons first rest ih =>
        simp only [Diagnostic.insert, order related first]
        split
        · exact .cons related (.cons first rest)
        · exact .cons first ih
  induction pairwise with
  | nil => exact .nil
  | cons first _ ih => exact insert first ih

end Diagnostic

/-- The same block, opened by the same command word of two texts. -/
structure OpenBlock.Twin (tokens others : List Token) (openBlock other : OpenBlock) : Prop where
  block : openBlock.block = other.block
  keyword : Span.Match tokens others openBlock.keyword other.keyword

/-- Trees of the same shape, inside of the same open blocks of two texts. -/
structure Sketch.Twins (tokens others : List Token) (sketch other : Sketch OpenBlock) : Prop where
  shape : sketch.bare (fun _ => ()) = other.bare fun _ => ()
  tags : Forall₂ (OpenBlock.Twin tokens others) sketch.tags other.tags

namespace Sketch.Twins

variable {tokens others : List Token} {sketch other : Sketch OpenBlock}

theorem append (twins : Sketch.Twins tokens others sketch other)
    (sameLength : tokens.length = others.length) (more more' : List Token) :
    Sketch.Twins (tokens ++ more) (others ++ more') sketch other :=
  ⟨twins.shape, twins.tags.imp fun _ _ twin =>
    ⟨twin.block, twin.keyword.append sameLength more more'⟩⟩

theorem add (twins : Sketch.Twins tokens others sketch other) {tree tree' : Tree}
    (shape : tree.bare = tree'.bare) :
    Sketch.Twins tokens others (sketch.add tree) (other.add tree') where
  shape := by rw [bare_add, bare_add, twins.shape, shape]
  tags := by
    rw [tags_add, tags_add]
    exact twins.tags

theorem wrap (twins : Sketch.Twins tokens others sketch other) {openBlock openBlock' : OpenBlock}
    (twin : OpenBlock.Twin tokens others openBlock openBlock') :
    Sketch.Twins tokens others (sketch.wrap openBlock) (other.wrap openBlock') where
  shape := by rw [bare_wrap, bare_wrap, twins.shape]
  tags := by
    rw [tags_wrap, tags_wrap]
    exact .cons twin twins.tags

theorem leave (twins : Sketch.Twins tokens others sketch other) (kind : Kind) :
    Sketch.Twins tokens others (sketch.leave kind) (other.leave kind) where
  shape := by rw [bare_leave, bare_leave, twins.shape]
  tags := by
    rw [tags_leave, tags_leave, ← List.drop_one, ← List.drop_one]
    exact List.forall₂_drop 1 twins.tags

/-- The innermost open blocks are the same. -/
theorem map_block_tag? (twins : Sketch.Twins tokens others sketch other) :
    sketch.tag?.map OpenBlock.block = other.tag?.map OpenBlock.block := by
  have tags := twins.tags
  rw [tag?_eq_head?, tag?_eq_head?]
  generalize sketch.tags = blocks at tags
  generalize other.tags = blocks' at tags
  cases tags with
  | nil => rfl
  | cons first _ => exact congrArg some first.block

theorem applyEdge (twins : Sketch.Twins tokens others sketch other) {Rel : Draft → Draft → Prop}
    {edge? edge?' : Option BlockEdge} (agree : BlockEdge.Agree Rel edge? edge?')
    {offset offset' : Nat}
    (keyword : ∀ ⦃draft other : Draft⦄, Rel draft other →
      Span.Match tokens others (draft.nextSpan.shift offset) (other.nextSpan.shift offset')) :
    Sketch.Twins tokens others (Reading.applyEdge offset sketch edge?)
      (Reading.applyEdge offset' other edge?') := by
  cases agree with
  | none => exact twins
  | opens block related _ => exact twins.wrap ⟨rfl, keyword related⟩
  | closes =>
      rcases Reading.applyEdge_closes_cases twins.map_block_tag? offset offset' with
        ⟨same, same'⟩ | ⟨kind, left, left'⟩
      · rwa [same, same']
      · rw [left, left']
        exact twins.leave kind

end Sketch.Twins

namespace Reading

/-- Two texts have been read in step up to the ends of some lines. -/
structure Twins (Same : Token → Token → Prop) (taken others : List Token)
    (reading other : Reading) : Prop where
  pairwise : Forall₂ Same taken others
  offset : reading.offset = Token.totalLength taken
  otherOffset : other.offset = Token.totalLength others
  sketch : Sketch.Twins taken others reading.sketch other.sketch
  diagnostics :
    Forall₂ (Diagnostic.Twin Same taken others) reading.diagnostics other.diagnostics

variable {Same : Token → Token → Prop} {taken others line line' : List Token}
  {reading other : Reading}

theorem twins_empty : Twins Same [] [] {} {} :=
  ⟨.nil, rfl, rfl, ⟨rfl, .nil⟩, .nil⟩

section Lines

variable (reads : ∀ ⦃token other : Token⦄, Same token other → token.ReadsLike other)
  (dialect : Dialect)
include reads

theorem Twins.addLine (twins : Twins Same taken others reading other)
    (pairwise : Forall₂ Same line line') :
    Twins Same (taken ++ line) (others ++ line') (reading.addLine dialect line)
      (other.addLine dialect line') := by
  have sameLength := twins.pairwise.length_eq
  have innermost : reading.block? = other.block? := twins.sketch.map_block_tag?
  obtain ⟨read, edges⟩ := Line.alike_outcome (Draft.congruence_twins reads pairwise) dialect
    reading.block? (Draft.Twins.start line line')
  have trees : (Line.read dialect reading.block? line).tree.bare =
      (Line.read dialect reading.block? line').tree.bare := by
    rw [Line.read_eq_outcome, Line.read_eq_outcome, Tree.bare_node, Tree.bare_node,
      ← Sketch.trees_bare id, read.sketch, Sketch.trees_bare]
  have faults : Forall₂ (Diagnostic.Twin Same line line')
      (Line.read dialect reading.block? line).diagnostics
      (Line.read dialect reading.block? line').diagnostics := by
    rw [Line.read_eq_outcome, Line.read_eq_outcome]
    exact List.forall₂_reverse_iff.mpr read.diagnostics
  refine ⟨?_, ?_, ?_, ?_, ?_⟩
  · exact List.rel_append twins.pairwise pairwise
  · rw [Reading.addLine, Token.totalLength_append, ← twins.offset]
  · rw [Reading.addLine, Token.totalLength_append, ← twins.otherOffset]
  · rw [Reading.addLine, Reading.addLine, ← innermost, twins.offset, twins.otherOffset]
    refine ((twins.sketch.append sameLength line line').add trees).applyEdge edges ?_
    intro draft other twins
    exact (twins.nextSpan reads pairwise).shift sameLength
  · rw [Reading.addLine, Reading.addLine, ← innermost, twins.offset, twins.otherOffset]
    refine List.rel_append (List.forall₂_reverse_iff.mpr ?_)
      (twins.diagnostics.imp fun _ _ twin => twin.append sameLength line line')
    exact List.rel_map (fun _ _ twin => twin.shift sameLength) faults

theorem Twins.addLines {lines lines' : List (List Token)}
    (pairwise : Forall₂ (Forall₂ Same) lines lines')
    (twins : Twins Same taken others reading other) :
    Twins Same (taken ++ lines.flatten) (others ++ lines'.flatten)
      (addLines dialect lines reading) (addLines dialect lines' other) := by
  induction pairwise generalizing taken others reading other with
  | nil => simpa [Reading.addLines] using twins
  | cons first _ ih =>
      have behind := ih (twins.addLine reads dialect first)
      rw [List.append_assoc, List.append_assoc] at behind
      exact behind

end Lines

theorem Twins.closeBlocks {blocks blocks' : List OpenBlock}
    (pairwise : Forall₂ (OpenBlock.Twin taken others) blocks blocks')
    (twins : Twins Same taken others reading other) :
    Twins Same taken others (closeBlocks blocks reading) (closeBlocks blocks' other) := by
  induction pairwise generalizing reading other with
  | nil => exact twins
  | @cons openBlock openBlock' _ _ first _ ih =>
      refine ih ⟨twins.pairwise, twins.offset, twins.otherOffset, ?_, ?_⟩
      · rw [first.block]
        exact twins.sketch.leave _
      · rw [first.block]
        exact .cons ⟨.same _, first.keyword⟩ twins.diagnostics

theorem Twins.close (twins : Twins Same taken others reading other) :
    Twins Same taken others reading.close other.close :=
  twins.closeBlocks twins.sketch.tags

end Reading

theorem Token.forall₂_lines {Same : Token → Token → Prop} {tokens others : List Token}
    (kinds : ∀ ⦃token other : Token⦄, Same token other → token.kind = other.kind)
    (pairwise : Forall₂ Same tokens others) :
    Forall₂ (Forall₂ Same) (lines tokens) (lines others) := by
  induction pairwise with
  | nil => exact .nil
  | cons first rest ih =>
      simp only [lines, kinds first]
      split
      · exact .cons (.cons first .nil) ih
      · generalize lines _ = below at ih
        generalize lines _ = below' at ih
        cases ih with
        | nil => exact .cons (.cons first .nil) .nil
        | cons line later => exact .cons (.cons first line) later

/-- Parses of one shape, with the same faults at the same tokens. -/
structure Parse.Twins (Same : Token → Token → Prop) (tokens others : List Token)
    (parse other : Parse) : Prop where
  shape : parse.root.bare = other.root.bare
  diagnostics :
    Forall₂ (Diagnostic.Twin Same tokens others) parse.diagnostics other.diagnostics

/-- Texts whose tokens are taken for alike one by one have parses of one shape. -/
theorem Parse.twins_entire {Same : Token → Token → Prop}
    (reads : ∀ ⦃token other : Token⦄, Same token other → token.ReadsLike other)
    (dialect : Dialect) {text other : Bytes}
    (pairwise : Forall₂ Same (Scan.scan dialect text) (Scan.scan dialect other)) :
    Parse.Twins Same (Scan.scan dialect text) (Scan.scan dialect other)
      (Parse.entire dialect text) (Parse.entire dialect other) := by
  have twins := (Reading.twins_empty.addLines reads dialect
    (Token.forall₂_lines (fun _ _ same => (reads same).kind) pairwise)).close
  rw [List.nil_append, List.nil_append, Token.flatten_lines, Token.flatten_lines,
    ← Reading.ofText_eq_addLines, ← Reading.ofText_eq_addLines] at twins
  have nonempty (text : Bytes) : ∀ token ∈ Scan.scan dialect text, token.text ≠ [] :=
    fun _ scanned => (Scan.isScanned_of_mem_scan scanned).text_ne_nil
  refine ⟨?_, Diagnostic.forall₂_inOrder ?_ (List.forall₂_reverse_iff.mpr twins.diagnostics)⟩
  · rw [Parse.entire, Parse.entire, Parse.fromScratch, Parse.fromScratch, Reading.toParse, Reading.toParse, Tree.bare_node,
      Tree.bare_node, ← Sketch.trees_bare (fun _ => ()), twins.sketch.shape, Sketch.trees_bare]
  · rintro first first' second second' ⟨-, start, _, startIn, _, here, here'⟩
      ⟨-, later, _, laterIn, _, there, there'⟩
    have sameLength := pairwise.length_eq
    rw [Diagnostic.start, Diagnostic.start, Diagnostic.start, Diagnostic.start, here, here',
      there, there']
    exact (Token.startAt_le_startAt_iff (nonempty text) startIn laterIn).trans
      (Token.startAt_le_startAt_iff (nonempty other) (sameLength ▸ startIn)
        (sameLength ▸ laterIn)).symm

end Asm6502
