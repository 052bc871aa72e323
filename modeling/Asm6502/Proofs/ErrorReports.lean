import Asm6502.Proofs.ErrorNodes
import Asm6502.Proofs.TextPlaces
import Asm6502.Proofs.ParseShape

/-!
# Errors are reported where they stand

Lines report the nodes of errors that they hold, so a text does: with every line the
reports move along with the tree, and opening or closing a block builds no node of
errors.  In the tree of a text such a node holds just tokens, a diagnostic covers exactly
the node, and every diagnostic starts at a significant token or at the end of the text.
-/

namespace Asm6502

open Token

namespace Span

variable {tokens : List Token} {span : Span}

theorem StartsAtToken.append (starts : span.StartsAtToken tokens) (more : List Token) :
    span.StartsAtToken (tokens ++ more) := by
  obtain ⟨before, token, after, rfl, significant, start⟩ := starts
  exact ⟨before, token, after ++ more, by simp, significant, start⟩

theorem StartsAtToken.shift (starts : span.StartsAtToken tokens) (before : List Token) :
    (span.shift (Token.totalLength before)).StartsAtToken (before ++ tokens) := by
  obtain ⟨inside, token, after, rfl, significant, start⟩ := starts
  refine ⟨before ++ inside, token, after, by simp, significant, ?_⟩
  rw [Token.totalLength_append, Span.shift, start, Nat.add_comm]

theorem Anchored.shift (anchored : span.Anchored tokens) (before : List Token) :
    (span.shift (Token.totalLength before)).Anchored (before ++ tokens) := by
  rcases anchored with starts | rfl
  · exact .inl (starts.shift before)
  · right
    rw [Token.totalLength_append, Span.empty, Span.shift, Span.empty, Nat.add_comm]

theorem Anchored.startsAtToken (anchored : span.Anchored tokens)
    (before : span.start < Token.totalLength tokens) : span.StartsAtToken tokens := by
  rcases anchored with starts | rfl
  · exact starts
  · exact absurd before (Nat.lt_irrefl _)

end Span

namespace Reading

section Edges

variable {offset : Nat} {sketch : Sketch OpenBlock} {edge? : Option BlockEdge}

theorem totalLength_applyEdge :
    Tree.totalLength (applyEdge offset sketch edge?).forest = Tree.totalLength sketch.forest := by
  rcases applyEdge_cases offset sketch edge? with same | ⟨_, _, -, wrapped⟩ | ⟨_, left⟩
  · rw [same]
  · rw [wrapped, Sketch.forest_wrap]
  · rw [left, Sketch.totalLength_forest_leave]

theorem nodeKind_ne_errorNode (block : BlockKind) : block.nodeKind ≠ .errorNode := by
  cases block <;> decide

theorem allFlagged_applyEdge {spans : List Span}
    (flagged : Tree.AllFlagged spans 0 sketch.forest) :
    Tree.AllFlagged spans 0 (applyEdge offset sketch edge?).forest := by
  rcases applyEdge_cases offset sketch edge? with same | ⟨_, _, -, wrapped⟩ | ⟨block, left⟩
  · rwa [same]
  · rwa [wrapped, Sketch.forest_wrap]
  · rw [left]
    exact Sketch.allFlagged_leave (nodeKind_ne_errorNode block) flagged

theorem mem_tags_applyEdge {openBlock : OpenBlock}
    (member : openBlock ∈ (applyEdge offset sketch edge?).tags) :
    openBlock ∈ sketch.tags ∨
      ∃ block keyword, edge? = some (.opens block keyword) ∧
        openBlock.keyword = keyword.shift offset := by
  rcases applyEdge_cases offset sketch edge? with
    same | ⟨block, keyword, isOpening, wrapped⟩ | ⟨_, left⟩
  · exact .inl (same ▸ member)
  · rw [wrapped, Sketch.tags_wrap] at member
    rcases List.mem_cons.mp member with rfl | old
    · exact .inr ⟨block, keyword, isOpening, rfl⟩
    · exact .inl old
  · rw [left, Sketch.tags_leave] at member
    exact .inl (List.mem_of_mem_tail member)

end Edges

/-- The nodes of errors that have been read hold just tokens and have been reported.
Reports are anchored, and blocks have been opened at tokens. -/
structure Flagged (taken : List Token) (reading : Reading) : Prop where
  offset : reading.offset = totalLength taken
  length : Tree.totalLength reading.sketch.forest = reading.offset
  nodes : Tree.AllFlagged (reading.diagnostics.map Diagnostic.span) 0 reading.sketch.forest
  starts : ∀ diagnostic ∈ reading.diagnostics, diagnostic.span.Anchored taken
  opened : ∀ openBlock ∈ reading.sketch.tags, openBlock.keyword.StartsAtToken taken

variable (dialect : Dialect) {taken line : List Token} {reading : Reading}

theorem flagged_empty : Flagged [] {} where
  offset := rfl
  length := rfl
  nodes := trivial
  starts _ member := absurd member List.not_mem_nil
  opened _ member := absurd member List.not_mem_nil

/-- All that has been reported starts at tokens, nothing at the end of what has been read. -/
def Settled (taken : List Token) (reading : Reading) : Prop :=
  ∀ diagnostic ∈ reading.diagnostics, diagnostic.span.StartsAtToken taken

section Line

variable (scanned : ∀ token ∈ line, Scan.IsScanned token) (isLine : IsLine line)
include scanned isLine

theorem Flagged.addLine (flagged : Flagged taken reading) (settled : Settled taken reading) :
    Flagged (taken ++ line) (reading.addLine dialect line) := by
  have read := Line.flagged_read dialect reading.block? scanned isLine
  have leaves := (Line.shape_read dialect reading.block? scanned isLine).leaves
  have lineLength : (Line.read dialect reading.block? line).tree.length = totalLength line := by
    rw [← Tree.leafLength_leaves, leaves, Tree.leafLength_map_pair]
  refine ⟨?_, ?_, ?_, ?_, ?_⟩
  · rw [Reading.addLine, totalLength_append, ← flagged.offset]
  · simp only [Reading.addLine, totalLength_applyEdge, Sketch.forest_add,
      Tree.totalLength_append, flagged.length, Tree.totalLength, lineLength, Nat.add_zero]
  · simp only [Reading.addLine]
    apply allFlagged_applyEdge
    rw [Sketch.forest_add, Tree.allFlagged_append, Tree.allFlagged_singleton, flagged.length]
    refine ⟨flagged.nodes.mono fun span member => ?_, ?_⟩
    · rw [List.map_append]
      exact List.mem_append_right _ member
    · refine read.nodes.shift reading.offset fun span member => ?_
      obtain ⟨diagnostic, reported, rfl⟩ := List.mem_map.mp member
      rw [List.map_append, List.map_reverse, List.map_map]
      apply List.mem_append_left
      exact List.mem_reverse.mpr (List.mem_map.mpr ⟨diagnostic, reported, rfl⟩)
  · intro diagnostic member
    simp only [Reading.addLine, List.mem_append, List.mem_reverse, List.mem_map] at member
    rcases member with ⟨original, isNew, rfl⟩ | old
    · rw [flagged.offset]
      exact (read.starts original isNew).shift taken
    · exact .inl ((settled diagnostic old).append line)
  · intro openBlock member
    rcases mem_tags_applyEdge member with old | ⟨block, keyword, isOpening, stands⟩
    · rw [Sketch.tags_add] at old
      exact (flagged.opened openBlock old).append line
    · rw [stands, flagged.offset]
      exact (read.opens block keyword isOpening).shift taken

theorem Settled.addLine (flagged : Flagged taken reading) (settled : Settled taken reading)
    (ends : EndsLine line) :
    Settled (taken ++ line) (reading.addLine dialect line) := by
  have read := Line.flagged_read dialect reading.block? scanned isLine
  have shape := Line.shape_read dialect reading.block? scanned isLine
  intro diagnostic member
  simp only [Reading.addLine, List.mem_append, List.mem_reverse, List.mem_map] at member
  rcases member with ⟨original, isNew, rfl⟩ | old
  · rw [flagged.offset]
    have starts := (read.starts original isNew).startsAtToken
      ((shape.reported original isNew).2 ends)
    exact starts.shift taken
  · exact (settled diagnostic old).append line

end Line

theorem Flagged.addLines {lines : List (List Token)} (flagged : Flagged taken reading)
    (settled : Settled taken reading)
    (shapes : ∀ line ∈ lines, IsLine line ∧ ∀ token ∈ line, Scan.IsScanned token)
    (ended : ∀ before line after, lines = before ++ line :: after → after ≠ [] →
      EndsLine line) :
    Flagged (taken ++ lines.flatten) (addLines dialect lines reading) := by
  induction lines generalizing taken reading with
  | nil => simpa [Reading.addLines] using flagged
  | cons line rest ih =>
      obtain ⟨isLine, scanned⟩ := shapes line List.mem_cons_self
      have here := flagged.addLine dialect scanned isLine settled
      -- Only what stands at the end of the last line is not at a token.
      cases rest with
      | nil => simpa [Reading.addLines] using here
      | cons next rest =>
          have closed := Settled.addLine dialect scanned isLine flagged settled
            (ended [] line (next :: rest) rfl (by simp))
          have behind := ih here closed
            (fun other member => shapes other (List.mem_cons_of_mem _ member))
            fun before other after split =>
              ended (line :: before) other after (by rw [split, List.cons_append])
          rwa [List.append_assoc] at behind

theorem Flagged.closeBlocks {blocks : List OpenBlock} (flagged : Flagged taken reading)
    (opened : ∀ openBlock ∈ blocks, openBlock.keyword.StartsAtToken taken) :
    Flagged taken (closeBlocks blocks reading) := by
  induction blocks generalizing reading with
  | nil => exact flagged
  | cons openBlock outer ih =>
      obtain ⟨here, further⟩ := List.forall_mem_cons.mp opened
      refine ih ⟨flagged.offset, ?_, ?_, ?_, ?_⟩ further
      · exact (Sketch.totalLength_forest_leave _ _).trans flagged.length
      · have nodes := Sketch.allFlagged_leave (nodeKind_ne_errorNode openBlock.block)
          flagged.nodes
        exact nodes.mono fun _ member => List.mem_cons_of_mem _ member
      · intro diagnostic member
        rcases List.mem_cons.mp member with rfl | old
        · exact .inl here
        · exact flagged.starts diagnostic old
      · intro other member
        rw [Sketch.tags_leave] at member
        exact flagged.opened other (List.mem_of_mem_tail member)

theorem flagged_ofText (text : Bytes) :
    Flagged (Scan.scan dialect text) (ofText dialect none [] text) := by
  have flagged : Flagged ([] ++ (lines (Scan.scan dialect text)).flatten)
      (addLines dialect (lines (Scan.scan dialect text)) {}) :=
    flagged_empty.addLines dialect (fun _ member => absurd member List.not_mem_nil)
      (fun _ member => Scan.lines_scan_shape dialect member) fun _ _ _ cut => (lines_shape cut).2
  rw [List.nil_append, flatten_lines] at flagged
  rw [ofText_eq_addLines, close]
  exact flagged.closeBlocks flagged.opened

end Reading

namespace Place

variable {spans : List Span}

/-- What is said of flagged trees, said at a place: and a node below it stands in no node
of errors. -/
structure Flagged (spans : List Span) (place : Place) : Prop where
  focus : place.focus.Flagged spans place.start
  apart : place.isNode = true → ∀ crumb ∈ place.above, crumb.kind ≠ .errorNode

theorem Flagged.child {place child : Place} (flagged : Flagged spans place)
    (member : child ∈ place.children) : Flagged spans child := by
  obtain ⟨focus, above⟩ := place
  cases focus with
  | token => contradiction
  | node kind trees =>
      obtain ⟨⟨here, below⟩, apart⟩ := flagged
      obtain ⟨earlier, tree, after, rfl, rfl⟩ := mem_among member
      constructor
      · have start : (Place.mk tree (⟨kind, earlier.reverse ++ [], after⟩ :: above)).start =
            (Place.mk (.node kind (earlier ++ tree :: after)) above).start +
              Tree.totalLength earlier := by
          rw [Place.start, Crumb.offset, List.append_nil, totalLength_reverse, Nat.add_comm]
          rfl
        rw [start]
        exact below.of_split
      · intro isNode crumb crumbIn
        rcases List.mem_cons.mp crumbIn with rfl | further
        · intro isError
          have isToken := (here isError).1 tree (by simp)
          rw [Tree.isToken, Bool.not_eq_true'] at isToken
          rw [Place.isNode, isToken] at isNode
          contradiction
        · exact apart rfl crumb further

end Place

namespace Parse

open Place

/-- The errors of a text are reported as nodes of the tree have them. -/
structure ReportsErrors (text : Bytes) (parse : Parse) : Prop where
  tokens :
    ∀ place ∈ parse.places, place.kind = .errorNode →
      ∀ child ∈ place.children, child.isToken = true
  apart :
    ∀ place ∈ parse.places, place.kind = .errorNode →
      ∀ outer ∈ enclosing place.focus place.above, outer.kind ≠ .errorNode
  reported :
    ∀ place ∈ parse.places, place.kind = .errorNode →
      ∃ diagnostic ∈ parse.diagnostics, diagnostic.span = place.span
  clean : parse.diagnostics = [] → ∀ place ∈ parse.places, place.kind ≠ .errorNode
  within : ∀ diagnostic ∈ parse.diagnostics, diagnostic.span.Within text.length
  ordered : Diagnostic.Ordered parse.diagnostics

/-- Every diagnostic starts with a significant token or is at the end of the text. -/
def ReportsAtTokens (text : Bytes) (parse : Parse) : Prop :=
  ∀ diagnostic ∈ parse.diagnostics,
    (∃ token ∈ parse.places, token.isToken = true ∧ token.isTrivia = false ∧
      token.start = diagnostic.span.start) ∨
    diagnostic.span = .empty text.length

variable (dialect : Dialect) (text : Bytes)

theorem flagged_of_mem_places {place : Place} (member : place ∈ (entire dialect text).places) :
    Flagged ((entire dialect text).diagnostics.map Diagnostic.span) place := by
  have flagged := Reading.flagged_ofText dialect text
  have closed : (Reading.ofText dialect none [] text).sketch.opened = [] :=
    Reading.isClosed_close _
  have nodes := flagged.nodes
  rw [Sketch.forest_of_opened_nil closed] at nodes
  refine forall_mem_preorder (fun _ flagged child member => flagged.child member) ?_ place member
  refine ⟨⟨fun isError => absurd isError (by decide), nodes.mono fun span member => ?_⟩,
    fun _ _ member => absurd member List.not_mem_nil⟩
  obtain ⟨diagnostic, reported, rfl⟩ := List.mem_map.mp member
  apply List.mem_map_of_mem
  exact Diagnostic.mem_inOrder.mpr (List.mem_reverse.mpr reported)

theorem isNode_of_errorNode {place : Place} (member : place ∈ (entire dialect text).places)
    (isError : place.kind = .errorNode) : place.isNode = true := by
  by_contra notNode
  have isToken : place.isToken = true := by
    rw [Place.isToken, Tree.isToken]
    simpa [Place.isNode] using notNode
  have kindIn : place.kind ∈ (Place.tokens ⟨(entire dialect text).root, []⟩).map Place.kind :=
    List.mem_map_of_mem (List.mem_filter.mpr ⟨member, isToken⟩)
  rw [map_kind_tokens_entire] at kindIn
  obtain ⟨token, tokenIn, same⟩ := List.mem_map.mp kindIn
  have kinds := (Scan.isScanned_of_mem_scan tokenIn).kind_cases
  have tokenKind : token.kind = .errorNode := same.trans isError
  rw [tokenKind] at kinds
  exact absurd kinds (by decide)

theorem exists_token_of_startsAtToken {span : Span}
    (starts : span.StartsAtToken (Scan.scan dialect text)) :
    ∃ token ∈ (entire dialect text).places, token.isToken = true ∧ token.isTrivia = false ∧
      token.start = span.start := by
  obtain ⟨before, token, after, cut, significant, start⟩ := starts
  have follows := (followsLines_entire dialect text).tokens
  rw [cut, List.map_append, List.map_cons, Tree.spansFrom_append, Tree.spansFrom,
    Tree.leafLength_map_pair] at follows
  have leafIn : (token.kind, (⟨Token.totalLength before,
      Token.totalLength before + token.length⟩ : Span)) ∈
        (Place.tokens ⟨(entire dialect text).root, []⟩).map fun leaf => (leaf.kind, leaf.span) := by
    rw [follows]
    simp [Token.pair]
  obtain ⟨place, placeIn, same⟩ := List.mem_map.mp leafIn
  obtain ⟨below, isToken⟩ := List.mem_filter.mp placeIn
  obtain ⟨kind, spanEq⟩ := Prod.mk.inj same
  refine ⟨place, below, isToken, ?_, ?_⟩
  · rw [Place.isTrivia, kind]
    exact significant
  · rw [start]
    exact congrArg Span.start spanEq

theorem reportsErrors_entire : (entire dialect text).ReportsErrors text := by
  have covers := covers_entire dialect text
  have reported : ∀ place ∈ (entire dialect text).places, place.kind = .errorNode →
      (∀ child ∈ place.children, child.isToken = true) ∧
        ∃ diagnostic ∈ (entire dialect text).diagnostics, diagnostic.span = place.span := by
    intro place member isError
    have isNode := isNode_of_errorNode dialect text member isError
    have flagged := (flagged_of_mem_places dialect text member).focus
    obtain ⟨focus, above⟩ := place
    cases focus with
    | token => contradiction
    | node kind trees =>
        obtain ⟨tokens, spanIn⟩ := flagged.1 isError
        refine ⟨fun child childIn => tokens _ (focus_mem_children childIn), ?_⟩
        exact List.mem_map.mp spanIn
  refine ⟨fun place member isError => (reported place member isError).1, ?_,
    fun place member isError => (reported place member isError).2, ?_, covers.within,
    covers.ordered⟩
  · intro place member isError outer outerIn
    obtain ⟨crumb, crumbIn, same⟩ := kind_of_mem_enclosing _ _ outerIn
    rw [same]
    exact (flagged_of_mem_places dialect text member).apart
      (isNode_of_errorNode dialect text member isError) crumb crumbIn
  · intro none place member isError
    obtain ⟨diagnostic, isIn, -⟩ := (reported place member isError).2
    rw [none] at isIn
    contradiction

theorem reportsAtTokens_entire : (entire dialect text).ReportsAtTokens text := by
  intro diagnostic member
  have anchored := (Reading.flagged_ofText dialect text).starts diagnostic
    (List.mem_reverse.mp (Diagnostic.mem_inOrder.mp member))
  rcases anchored with starts | atEnd
  · exact .inl (exists_token_of_startsAtToken dialect text starts)
  · right
    rw [atEnd, ← Written.length_flatMap_text, (followsLines_entire dialect text).joined]

theorem reportsErrors_rejected (error : InputTooLarge) :
    (rejected error).ReportsErrors text := by
  have notError {place : Place} (member : place ∈ (rejected error).places)
      (isError : place.kind = .errorNode) : False := by
    rw [kind_of_mem_places_rejected member] at isError
    contradiction
  exact
    { tokens := fun _ member isError => (notError member isError).elim
      apart := fun _ member isError => (notError member isError).elim
      reported := fun _ member isError => (notError member isError).elim
      clean := fun _ _ member isError => notError member isError
      within := by
        intro diagnostic member
        obtain rfl := List.mem_singleton.mp member
        exact ⟨Nat.le_refl _, Nat.zero_le _⟩
      ordered := (covers_rejected error).ordered }

/-- Of every text, each node of errors is reported, and each report has its place in the
text.  It starts with a token or is at the end, unless the text is too long and the only
report says so. -/
theorem ofText_reports_errors (dialect : Dialect) (text : Bytes) :
    (ofText dialect text).ReportsErrors text ∧
      (text.length ≤ maxTextLength → (ofText dialect text).ReportsAtTokens text) ∧
      (maxTextLength < text.length →
        (ofText dialect text).diagnostics =
          [⟨InputTooLarge.message ⟨text.length, maxTextLength⟩, ⟨0, 0⟩⟩]) := by
  refine ⟨?_, fun fits => ?_, fun tooLong => ?_⟩
  · rcases ofText_cases dialect text with ⟨-, read⟩ | ⟨-, refused⟩
    · rw [read]
      exact reportsErrors_entire dialect text
    · rw [refused]
      exact reportsErrors_rejected text _
  · rw [ofText_of_le fits]
    exact reportsAtTokens_entire dialect text
  · rw [ofText_of_lt tooLong]
    rfl

/-- Where there is nothing but more blanks than a text can have, the report is neither
with a token nor at the end. -/
theorem blanks_not_reportsAtTokens :
    ¬∀ (dialect : Dialect) (text : Bytes),
      (ofText dialect text).ReportsErrors text ∧ (ofText dialect text).ReportsAtTokens text := by
  intro reports
  have tooLong := Bytes.lt_length_overlong 0x20
  have starts := (reports .stock (Bytes.overlong 0x20)).2
  rw [ofText_of_lt tooLong] at starts
  rcases starts _ (List.mem_singleton_self _) with ⟨token, member, isToken, -⟩ | atEnd
  · obtain rfl := List.mem_singleton.mp member
    contradiction
  · have stop := congrArg Span.stop atEnd
    simp only [Span.empty] at stop
    omega

/-- A statement that is none, and what follows the operand of an instruction. -/
example : let parse := ofText .stock (Bytes.ascii " ) a\n lda #1 x\n")
    (parse.places.filter fun place => place.kind == .errorNode).map Place.span =
      parse.diagnostics.map Diagnostic.span ∧ parse.diagnostics.length = 2 := by
  decide +kernel

end Parse
end Asm6502
