import Asm6502.Parse.Outcome
import Asm6502.Proofs.LineWriting
import Asm6502.Proofs.PassageTexts
import Asm6502.Proofs.ReadingCourse
import Mathlib.Data.List.Induction

/-!
# What a text is written as

A text is a list of lines and of blocks with their opening and closing lines.  If it
ends inside of blocks, the last element of the text is an unclosed block, and the
last element of that one may be unclosed again.
-/

namespace Asm6502

open Written

variable {dialect : Dialect}

/-- A line inside the given block, with its effect. -/
def LineWith (dialect : Dialect) (block? : Option BlockKind) (edge? : Option BlockEdge)
    (written : Written) : Prop :=
  ∃ children, written = .node .line children ∧ (∀ child ∈ children, child.Formed dialect) ∧
    LineShape dialect block? 0 children edge?

/-- A line without effect, or a block with its opening and its closing line. -/
inductive Section (dialect : Dialect) : Option BlockKind → Written → Prop
  | line {block? : Option BlockKind} {written : Written} :
      LineWith dialect block? none written → Section dialect block? written
  | block {block? : Option BlockKind} {block : BlockKind} {keyword : Span}
      {opener closer : Written} {body : List Written} :
      LineWith dialect block? (some (.opens block keyword)) opener →
        (∀ part ∈ body, Section dialect (some block) part) →
          LineWith dialect (some block) (some .closes) closer →
            Section dialect block? (.node block.nodeKind (opener :: (body ++ [closer])))

/-- The report of a block whose closing line is missing. -/
def unterminated (block : BlockKind) (keyword : Span) : Diagnostic :=
  ⟨(Cause.unterminatedBlock block).message, keyword⟩

/-- What stands last, from `start` on: nothing, or a block in which the text ends.
The reports are those of the unclosed blocks, outermost first. -/
inductive Ending (dialect : Dialect) :
    Option BlockKind → Nat → List Written → List Diagnostic → Prop
  | closed {block? : Option BlockKind} {start : Nat} : Ending dialect block? start [] []
  | unclosed {block? : Option BlockKind} {start : Nat} {block : BlockKind} {keyword : Span}
      {opener : Written} {body tail : List Written} {reports : List Diagnostic} :
      LineWith dialect block? (some (.opens block keyword)) opener →
        keyword.start < Token.totalLength opener.tokens →
          (∀ part ∈ body, Section dialect (some block) part) →
            Ending dialect (some block) (start + Token.totalLength (allTokens (opener :: body)))
              tail reports →
              Ending dialect block? start
                [.node block.nodeKind (opener :: (body ++ tail))]
                (unterminated block (keyword.shift start) :: reports)

/-- A block that is still open, with its opening line and what has followed. -/
structure Opening where
  tag : OpenBlock
  children : List Written

namespace Opening

/-- The innermost open block. -/
def block? (openings : List Opening) : Option BlockKind :=
  openings.head?.map fun opening => opening.tag.block

/-- The tokens of open blocks, given innermost first. -/
def allTokens : List Opening → List Token
  | [] => []
  | opening :: outer => allTokens outer ++ Written.allTokens opening.children

/-- Where a block would be opened next. -/
def extent (start : Nat) (openings : List Opening) : Nat :=
  start + Token.totalLength (allTokens openings)

theorem extent_cons (start : Nat) (opening : Opening) (outer : List Opening) :
    extent start (opening :: outer) =
      extent start outer + Token.totalLength (Written.allTokens opening.children) := by
  rw [extent, extent, allTokens, Token.totalLength_append, Nat.add_assoc]

/-- Parts outside of open blocks, and open blocks, given innermost first. -/
def sketch (settled : List Written) : List Opening → Sketch OpenBlock
  | [] => ({} : Sketch OpenBlock).addAll (settled.map tree)
  | opening :: outer =>
      ((sketch settled outer).enter opening.tag).addAll (opening.children.map tree)

theorem tags_sketch (settled : List Written) (openings : List Opening) :
    (sketch settled openings).tags = openings.map tag := by
  induction openings with
  | nil => rw [sketch, Sketch.tags_addAll]; rfl
  | cons opening outer ih => simp [sketch, ih]

theorem tag?_sketch (settled : List Written) (openings : List Opening) :
    (sketch settled openings).tag?.map OpenBlock.block = block? openings := by
  rw [Sketch.tag?_eq_head?, tags_sketch, List.head?_map, Option.map_map]
  rfl

end Opening

/-- Blocks that have been opened inside of one another from `start` on. -/
inductive Nested (dialect : Dialect) (start : Nat) : List Opening → Prop
  | nil : Nested dialect start []
  | cons {outer : List Opening} {block : BlockKind} {keyword : Span} {opener : Written}
      {body : List Written} :
      LineWith dialect (Opening.block? outer) (some (.opens block keyword)) opener →
        keyword.start < Token.totalLength opener.tokens →
          (∀ part ∈ body, Section dialect (some block) part) → Nested dialect start outer →
            Nested dialect start
              (⟨⟨block, keyword.shift (Opening.extent start outer)⟩, opener :: body⟩ :: outer)

/-- Closed parts, and open blocks behind them, stand for some tokens. -/
structure Nests (dialect : Dialect) (settled : List Written) (openings : List Opening)
    (taken : List Token) (sketch : Sketch OpenBlock) : Prop where
  sections : ∀ part ∈ settled, Section dialect none part
  nested : Nested dialect (Token.totalLength (allTokens settled)) openings
  tokens : allTokens settled ++ Opening.allTokens openings = taken
  sketch : sketch = Opening.sketch settled openings

section

variable {settled : List Written} {openings : List Opening} {taken : List Token}
  {sketch : Sketch OpenBlock}

theorem extent_eq (nests : Nests dialect settled openings taken sketch) :
    Opening.extent (Token.totalLength (allTokens settled)) openings =
      Token.totalLength taken := by
  rw [Opening.extent, ← Token.totalLength_append, nests.tokens]

/-- A closed part is added to the innermost block. -/
theorem Nests.add (nests : Nests dialect settled openings taken sketch) {part : Written}
    (shape : Section dialect (Opening.block? openings) part) :
    ∃ settled openings,
      Nests dialect settled openings (taken ++ part.tokens) (sketch.add part.tree) := by
  obtain ⟨sections, nested, tokens, rfl⟩ := nests
  cases nested with
  | nil =>
      refine ⟨settled ++ [part], [], ?_, .nil, ?_, ?_⟩
      · intro other member
        rcases List.mem_append.mp member with old | new
        · exact sections other old
        · obtain rfl := List.mem_singleton.mp new
          exact shape
      · rw [← tokens]
        simp [Opening.allTokens, allTokens]
      · rw [Opening.sketch, Opening.sketch, List.map_append, Sketch.addAll_append]
        rfl
  | @cons outer block keyword opener body opens early inside nested =>
      have longer : ∀ other ∈ body ++ [part], Section dialect (some block) other := by
        intro other member
        rcases List.mem_append.mp member with old | new
        · exact inside other old
        · obtain rfl := List.mem_singleton.mp new
          exact shape
      refine ⟨settled, _, sections, .cons opens early longer nested, ?_, ?_⟩
      · rw [← tokens]
        simp [Opening.allTokens, allTokens]
      · rw [Opening.sketch, Opening.sketch, ← List.cons_append, List.map_append,
          Sketch.addAll_append]
        rfl

theorem Nests.enter (nests : Nests dialect settled openings taken sketch) {opener : Written}
    {block : BlockKind} {keyword : Span}
    (opens : LineWith dialect (Opening.block? openings) (some (.opens block keyword)) opener)
    (early : keyword.start < Token.totalLength opener.tokens) :
    ∃ openings,
      Nests dialect settled openings (taken ++ opener.tokens)
        ((sketch.add opener.tree).wrap ⟨block, keyword.shift (Token.totalLength taken)⟩) := by
  rw [← extent_eq nests]
  obtain ⟨sections, nested, tokens, rfl⟩ := nests
  have empty : ∀ part ∈ ([] : List Written), Section dialect (some block) part := by simp
  refine ⟨_, sections, .cons opens early empty nested, ?_, ?_⟩
  · rw [← tokens]
    simp [Opening.allTokens, allTokens]
  · rw [Sketch.wrap_add]
    rfl

theorem sketch_leave (settled : List Written) (opening : Opening) (outer : List Opening)
    (tail : List Written) (nonempty : opening.children ≠ []) (kind : Kind) :
    ((Opening.sketch settled (opening :: outer)).addAll (tail.map tree)).leave kind =
      (Opening.sketch settled outer).add (Written.node kind (opening.children ++ tail)).tree := by
  have filled : (opening.children ++ tail).map tree ≠ [] := by simp [nonempty]
  rw [Opening.sketch, ← Sketch.addAll_append, ← List.map_append, tree_node]
  exact Sketch.leave_addAll_enter _ _ filled kind

theorem Nests.leave (nests : Nests dialect settled openings taken sketch) {closer : Written}
    {block : BlockKind} (innermost : Opening.block? openings = some block)
    (closes : LineWith dialect (some block) (some .closes) closer) :
    ∃ settled openings,
      Nests dialect settled openings (taken ++ closer.tokens)
        ((sketch.add closer.tree).leave block.nodeKind) := by
  obtain ⟨sections, nested, tokens, rfl⟩ := nests
  cases nested with
  | nil => contradiction
  | @cons outer inner keyword opener body opens early inside nested =>
      obtain rfl : inner = block := Option.some.inj innermost
      have outside : Nests dialect settled outer
          (allTokens settled ++ Opening.allTokens outer) (Opening.sketch settled outer) :=
        ⟨sections, nested, rfl, rfl⟩
      obtain ⟨settled', openings', whole⟩ := outside.add (.block opens inside closes)
      have closed := sketch_leave settled
        ⟨⟨inner, keyword.shift (Opening.extent (Token.totalLength (allTokens settled)) outer)⟩,
          opener :: body⟩ outer [closer] (by simp) inner.nodeKind
      have covered : taken ++ closer.tokens =
          allTokens settled ++ Opening.allTokens outer ++
            (Written.node inner.nodeKind (opener :: (body ++ [closer]))).tokens := by
        rw [← tokens]
        simp [Opening.allTokens, allTokens, tokens_node]
      refine ⟨settled', openings', ?_⟩
      rw [covered]
      exact closed ▸ whole

end

theorem LineShape.innermost {block? : Option BlockKind} {start : Nat}
    {children : List Written} (shape : LineShape dialect block? start children (some .closes)) :
    ∃ block, block? = some block := by
  generalize isClosing : some BlockEdge.closes = edge? at shape
  cases shape with
  | plain => contradiction
  | command _ _ _ _ inPlace =>
      obtain ⟨closed, isCloser⟩ := Statement.edge?_eq_closes isClosing
      exact ⟨closed, Statement.innermost_of_closes isCloser inPlace⟩

namespace Reading

/-- A text that has been read up to the end of some line. -/
structure ReadAs (dialect : Dialect) (taken : List Token) (reading : Reading) : Prop where
  nests : ∃ settled openings, Nests dialect settled openings taken reading.sketch
  offset : reading.offset = Token.totalLength taken
  ofLine : ∀ diagnostic ∈ reading.diagnostics, diagnostic.IsOfLine

theorem readAs_empty : ReadAs dialect [] {} where
  nests := ⟨[], [], by simp, .nil, rfl, rfl⟩
  offset := rfl
  ofLine := by simp

/-- A line is added to the innermost block, and then its effect takes place. -/
theorem exists_nests_applyEdge {settled : List Written} {openings : List Opening}
    {taken : List Token} {sketch : Sketch OpenBlock} {line : Written}
    {edge? : Option BlockEdge} (nests : Nests dialect settled openings taken sketch)
    (lineWith : LineWith dialect (Opening.block? openings) edge? line)
    (early : ∀ block keyword, edge? = some (.opens block keyword) →
      keyword.start < Token.totalLength line.tokens) :
    ∃ settled openings,
      Nests dialect settled openings (taken ++ line.tokens)
        (applyEdge (Token.totalLength taken) (sketch.add line.tree) edge?) := by
  cases edge? with
  | none => exact nests.add (.line lineWith)
  | some effect =>
      cases effect with
      | opens block keyword => exact ⟨settled, nests.enter lineWith (early block keyword rfl)⟩
      | closes =>
          obtain ⟨block, isInnermost⟩ := LineShape.innermost (lineWith.choose_spec.2.2)
          rw [isInnermost] at lineWith
          have tag : (sketch.add line.tree).tag?.map OpenBlock.block = some block := by
            rw [Sketch.tag?_eq_head?, Sketch.tags_add, ← Sketch.tag?_eq_head?, nests.sketch,
              Opening.tag?_sketch, isInnermost]
          obtain ⟨openBlock, tagged, rfl⟩ := Option.map_eq_some_iff.mp tag
          rw [applyEdge, tagged]
          exact nests.leave isInnermost lineWith

theorem ReadAs.addLine {taken line : List Token} {reading : Reading}
    (read : ReadAs dialect taken reading) (isLine : Token.IsLine line)
    (scanned : ∀ token ∈ line, Scan.IsScanned token) :
    ReadAs dialect (taken ++ line) (reading.addLine dialect line) := by
  obtain ⟨⟨settled, openings, nests⟩, offset, ofLine⟩ := read
  obtain ⟨children, written⟩ :=
    Line.exists_writtenAs dialect reading.block? scanned isLine
  have innermost : reading.block? = Opening.block? openings := by
    rw [block?, nests.sketch, Opening.tag?_sketch]
  have tokens : (Written.node .line children).tokens = line := written.tokens
  have lineWith : LineWith dialect (Opening.block? openings)
      (Line.read dialect reading.block? line).edge? (.node .line children) :=
    ⟨children, rfl, written.formed, innermost ▸ written.shape⟩
  refine ⟨?_, ?_, ?_⟩
  · have added := exists_nests_applyEdge nests lineWith fun block keyword edge => by
      rw [tokens]
      exact (Line.opens_read dialect reading.block? scanned edge).2
    rwa [tokens, ← offset, ← written.tree] at added
  · change reading.offset + Token.totalLength line = _
    rw [offset, Token.totalLength_append]
  · intro diagnostic member
    rcases List.mem_append.mp member with new | old
    · obtain ⟨original, originalIn, rfl⟩ := List.mem_map.mp (List.mem_reverse.mp new)
      exact written.ofLine original originalIn
    · exact ofLine diagnostic old

/-- Read lines one behind the other. -/
def addLines (dialect : Dialect) (lines : List (List Token)) (reading : Reading) : Reading :=
  lines.foldl (fun reading line => reading.addLine dialect line) reading

theorem addLines_induct {motive : List (List Token) → Reading → Prop}
    {lines : List (List Token)} {reading : Reading} (start : motive [] reading)
    (step : ∀ line ∈ lines, ∀ own reading, motive own reading →
      motive (own ++ [line]) (reading.addLine dialect line)) :
    motive lines (addLines dialect lines reading) := by
  induction lines using List.reverseRecOn with
  | nil => exact start
  | append_singleton lines line ih =>
      rw [addLines, List.foldl_append]
      exact step line (by simp) lines _ (ih fun other member => step other (by simp [member]))

theorem complete_eq_addLines (text : Bytes) {reading : Reading}
    (fresh : reading.candidates = []) :
    complete dialect none text reading =
      (addLines dialect (Token.lines (Scan.scan dialect text)) reading).close := by
  -- Induction on the length of what has not been read: no line is empty.
  induction lengthEq : text.length using Nat.strongRecOn generalizing text reading with
  | ind length ih =>
      by_cases empty : text = []
      · subst empty
        rfl
      · have noneFits : reading.reusable? text = none := by
          rw [reusable?, fresh]
          split <;> rfl
        have positive := length_pos_of_line dialect empty
        have nonempty := List.length_pos_iff.mpr empty
        rw [complete_of_addLine empty rfl noneFits, Scan.lines_scan dialect empty]
        refine ih _ ?_ _ fresh rfl
        rw [List.length_drop]
        omega

theorem ofText_eq_addLines (dialect : Dialect) (text : Bytes) :
    Reading.ofText dialect none [] text =
      (addLines dialect (Token.lines (Scan.scan dialect text)) {}).close :=
  complete_eq_addLines text rfl

theorem readAs_addLines (dialect : Dialect) {lines : List (List Token)}
    (shapes : ∀ line ∈ lines, Token.IsLine line ∧ ∀ token ∈ line, Scan.IsScanned token) :
    ReadAs dialect lines.flatten (addLines dialect lines {}) := by
  refine addLines_induct (motive := fun own reading => ReadAs dialect own.flatten reading)
    readAs_empty fun line member own reading read => ?_
  obtain ⟨isLine, scanned⟩ := shapes line member
  rw [List.flatten_append, List.flatten_singleton]
  exact read.addLine isLine scanned

/-- Report a block whose closing line is missing, and close it. -/
def abandon (openBlock : OpenBlock) (reading : Reading) : Reading :=
  { reading with
    sketch := reading.sketch.leave openBlock.block.nodeKind
    steps := .complete openBlock.block.nodeKind :: reading.steps
    diagnostics := unterminated openBlock.block openBlock.keyword :: reading.diagnostics }

theorem ending_closeBlocks {settled tail : List Written} {openings : List Opening}
    {reports others : List Diagnostic} (reading : Reading)
    (nested : Nested dialect (Token.totalLength (allTokens settled)) openings)
    (ending : Ending dialect (Opening.block? openings)
      (Opening.extent (Token.totalLength (allTokens settled)) openings) tail reports)
    (sketch : reading.sketch = (Opening.sketch settled openings).addAll (tail.map tree))
    (reported : reading.diagnostics = reports ++ others) :
    ∃ tail' reports',
      Ending dialect none (Token.totalLength (allTokens settled)) tail' reports' ∧
        (closeBlocks (openings.map Opening.tag) reading).sketch =
            (Opening.sketch settled []).addAll (tail'.map tree) ∧
          (closeBlocks (openings.map Opening.tag) reading).diagnostics = reports' ++ others ∧
            allTokens tail' = Opening.allTokens openings ++ allTokens tail := by
  -- From the innermost block outwards: a block that has been closed is all that
  -- stands behind the closed parts of the next one.
  induction nested generalizing tail reports reading with
  | nil => exact ⟨tail, reports, ending, sketch, reported, rfl⟩
  | @cons outer block keyword opener body opens early inside _ ih =>
      rw [Opening.extent_cons] at ending
      have unclosed := Ending.unclosed opens early inside ending
      have left : reading.sketch.leave block.nodeKind =
          (Opening.sketch settled outer).addAll
            (([.node block.nodeKind (opener :: (body ++ tail))] : List Written).map tree) := by
        rw [sketch]
        exact sketch_leave settled ⟨_, opener :: body⟩ outer tail (by simp) block.nodeKind
      let openBlock : OpenBlock :=
        ⟨block, keyword.shift (Opening.extent (Token.totalLength (allTokens settled)) outer)⟩
      have reportedNext : (reading.abandon openBlock).diagnostics =
          unterminated openBlock.block openBlock.keyword :: reports ++ others := by
        rw [abandon, reported, List.cons_append]
      obtain ⟨tail', reports', ending', sketch', reported', tokens⟩ :=
        ih (reading.abandon openBlock) unclosed left reportedNext
      refine ⟨tail', reports', ending', sketch', reported', ?_⟩
      rw [tokens]
      simp [Opening.allTokens, allTokens, tokens_node]

end Reading

namespace Parse

open Reading

/-- The children of the root with the tokens of the text, and the reports of the
blocks that are not closed, outermost first. -/
structure WrittenAs (dialect : Dialect) (text : Bytes) (parse : Parse)
    (settled tail : List Written) (reports : List Diagnostic) : Prop where
  root : parse.root = (Written.node .sourceFile (settled ++ tail)).tree
  tokens : allTokens (settled ++ tail) = Scan.scan dialect text
  sections : ∀ part ∈ settled, Section dialect none part
  ending : Ending dialect none (Token.totalLength (allTokens settled)) tail reports
  diagnostics :
    ∃ others, (∀ diagnostic ∈ others, diagnostic.IsOfLine) ∧
      parse.diagnostics = Diagnostic.inOrder (others ++ reports.reverse)

theorem exists_writtenAs (dialect : Dialect) (text : Bytes) :
    ∃ settled tail reports,
      WrittenAs dialect text (entire dialect text) settled tail reports := by
  have shapes : ∀ line ∈ Token.lines (Scan.scan dialect text),
      Token.IsLine line ∧ ∀ token ∈ line, Scan.IsScanned token :=
    fun _ member => Scan.lines_scan_shape dialect member
  obtain ⟨⟨settled, openings, nests⟩, -, ofLine⟩ := readAs_addLines dialect shapes
  have read := ofText_eq_addLines dialect text
  rw [close, nests.sketch, Opening.tags_sketch] at read
  obtain ⟨tail, reports, ending, sketch, reported, tokens⟩ :=
    ending_closeBlocks _ nests.nested .closed nests.sketch (List.nil_append _).symm
  rw [← read] at sketch reported
  have whole := nests.tokens
  rw [Token.flatten_lines] at whole
  refine ⟨settled, tail, reports, ?_, ?_, nests.sections, ending, _,
    fun diagnostic member => ofLine diagnostic (List.mem_reverse.mp member), ?_⟩
  · have forest : (Reading.ofText dialect none [] text).sketch.trees =
        (settled ++ tail).map tree := by
      have closed : (Reading.ofText dialect none [] text).sketch.opened = [] :=
        isClosed_close _
      rw [← Sketch.forest_of_opened_nil closed, sketch, Sketch.forest_addAll, Opening.sketch,
        Sketch.forest_addAll, List.map_append]
      rfl
    rw [tree_node, ← forest]
    rfl
  · rw [allTokens_append, tokens, ← whole]
    simp [allTokens]
  · rw [← List.reverse_append, ← reported]
    rfl

end Parse
end Asm6502
