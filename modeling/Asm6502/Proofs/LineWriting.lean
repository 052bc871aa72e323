import Asm6502.Proofs.ExpressionWriting
import Asm6502.Proofs.LineShape

/-!
# What a line is written as

The children of a line are labels, tokens, errors and at most one command that is
in place.  A line has an effect on the open blocks just when there is such a
command, and its word tells which.
-/

namespace Asm6502

open Draft Written

variable {dialect : Dialect}

namespace Arguments

variable {kinds : Kind → Bool}

theorem writer_sizedExpression : Writer dialect Kind.isOperand sizedExpression := by
  intro draft plain
  have read := Expression.writer_read dialect draft plain
  unfold sizedExpression
  dsimp only
  split
  · exact read.trans ((writes_bump _).trans (writes_expect .ident .expectedAddressSize (by simp) _))
  · exact read

theorem writer_expressions : Writer dialect Kind.isOperand expressions := by
  intro draft plain
  unfold expressions
  split
  · exact .refl draft
  · exact writer_separated writer_sizedExpression draft plain

theorem writes_sign (draft : Draft) : Writes dialect kinds draft (sign draft) := by
  unfold sign
  split
  · exact writes_bump draft
  · exact writes_bump draft
  · exact .refl draft

theorem writer_words : Writer dialect kinds words := by
  intro draft plain
  unfold words
  split
  · exact .refl draft
  · apply writer_separated _ draft plain
    intro item _
    exact (writes_expect .ident .expectedName (by simp) item).trans (writes_sign _)

theorem writes_toggle (draft : Draft) : Writes dialect kinds draft (toggle draft) := by
  unfold toggle
  split
  · exact writes_bump draft
  · exact writes_sign draft

theorem writer_parameter : Writer dialect kinds parameter := by
  intro draft _
  unfold parameter
  split
  · exact writes_bump draft
  · exact writes_bump draft
  · exact writes_bump draft
  · exact writes_error .expectedParameterName (by simp) draft

theorem writer_macroHeader : Writer dialect kinds macroHeader := by
  intro draft plain
  unfold macroHeader
  split
  · dsimp only
    split
    · exact writes_bump draft
    · exact (writes_bump draft).andThen plain (writer_separated writer_parameter)
  · exact writes_error .expectedMacroName (by simp) draft

theorem writer_parameters : Writer dialect kinds parameters := by
  intro draft plain
  unfold parameters
  refine Writes.trans ?_ (writes_expect .rightParen .expectedClosingParen (by simp) _)
  split
  · exact writes_bump draft
  · exact (writes_bump draft).andThen plain (writer_separated writer_parameter)

theorem writes_replacement (draft : Draft) :
    Writes dialect Kind.isOperand draft (replacement draft) := by
  unfold replacement
  split
  · exact .refl draft
  · exact writes_node .macroArg rfl (fun _ => trivial) fun inner _ => writes_takeUntil _ inner

theorem writer_definition : Writer dialect Kind.isOperand definition := by
  intro draft plain
  unfold definition
  split
  · refine (writes_bump draft).trans (Writes.trans ?_ (writes_replacement _))
    split
    · exact (Writes.refl _).andThen
        (by rw [role_bump, plain])
        writer_parameters
    · exact .refl _
  · exact writes_error .expectedName (by simp) draft

theorem writer_read (dialect : Dialect) (shape : ArgumentShape) :
    Writer dialect Kind.isOperand (read shape) := by
  cases shape with
  | none => exact fun draft _ => .refl draft
  | expressions => exact writer_expressions
  | assignment => exact writer_expressions
  | toggle => exact fun draft _ => writes_toggle draft
  | words => exact writer_words
  | macroHeader => exact writer_macroHeader
  | define => exact writer_definition

end Arguments

namespace Operand

theorem writes_index {kinds : Kind → Bool} (cause : Cause) (ofLine : cause.IsOfLine)
    (draft : Draft) : Writes dialect kinds draft (index cause draft) := by
  unfold index
  split
  · exact (writes_bump draft).trans (writes_expect .register cause ofLine _)
  · exact .refl draft

theorem writer_address : Writer dialect Kind.isOperand address := by
  intro draft plain
  have sized : Writes dialect Kind.isOperand draft
      (if hasSize draft then draft.bump.bump else draft) := by
    split
    · exact (writes_bump draft).trans (writes_bump _)
    · exact .refl draft
  unfold address
  generalize (if hasSize draft then draft.bump.bump else draft) = start at sized ⊢
  refine Writes.trans ?_ (writes_index .expectedIndexRegister (by simp) _)
  split
  · have opened := sized.trans (writes_bump start)
    refine (opened.andThen plain (Expression.writer_read dialect)).trans ?_
    exact (writes_index .expectedXRegister (by simp) _).trans
      (writes_expect .rightParen .expectedClosingParen (by simp) _)
  · exact sized.andThen plain (Expression.writer_read dialect)

theorem writer_read : Writer dialect Kind.instruction.holds read := by
  intro draft _
  unfold read
  split
  · exact .refl draft
  · refine writes_node .operand rfl (fun _ => trivial) fun inner plain => ?_
    split
    · exact (writes_bump inner).andThen plain (Expression.writer_read dialect)
    · split
      · exact writes_bump inner
      · exact writer_address inner plain
    · exact writer_address inner plain

end Operand

/-- Nodes beside the statement of a line. -/
def Kind.standsAside : Kind → Bool
  | .label | .errorNode => true
  | _ => false

/-- Nodes that play no part in block structure. -/
def Kind.standsPlain : Kind → Bool
  | .label | .errorNode | .instruction | .symbolAssignment | .macroCall | .field => true
  | _ => false

theorem Kind.standsPlain_of_standsAside (kind : Kind) (aside : kind.standsAside = true) :
    kind.standsPlain = true := by
  revert aside
  cases kind <;> decide

/-- The children of a line from `start` on, and their effect on the blocks. -/
inductive LineShape (dialect : Dialect) (block? : Option BlockKind) (start : Nat) :
    List Written → Option BlockEdge → Prop
  | plain {children : List Written} :
      (∀ child ∈ children, child.Among Kind.standsPlain) →
        LineShape dialect block? start children none
  | command {lead trail arguments : List Written} {word : Token} {command : Directive} :
      (∀ child ∈ lead, child.Among Kind.standsAside) →
        (∀ child ∈ trail, child.Among Kind.standsAside) →
          word.kind = .directiveKw → dialect.directive? word.text = some command →
            Statement.misplaced? block? command = none →
              LineShape dialect block? start
                (lead ++ .node .directive (.leaf word :: arguments) :: trail)
                (Statement.edge?
                  ⟨start + Token.totalLength (allTokens lead),
                    start + Token.totalLength (allTokens lead) + word.length⟩
                  command.role)

section

variable {block? : Option BlockKind} {start : Nat} {children aside : List Written}
  {edge? : Option BlockEdge}

/-- What stands aside makes no difference to the effect. -/
theorem LineShape.before
    (shape : LineShape dialect block? (start + Token.totalLength (allTokens aside))
      children edge?)
    (beside : ∀ child ∈ aside, child.Among Kind.standsAside) :
    LineShape dialect block? start (aside ++ children) edge? := by
  cases shape with
  | plain stands =>
      refine .plain fun child member => ?_
      exact (List.mem_append.mp member).elim
        (fun early => (beside child early).mono Kind.standsPlain_of_standsAside) (stands child)
  | command lead trail isWord listed inPlace =>
      rw [← List.append_assoc, Nat.add_assoc, ← Token.totalLength_append, ← allTokens_append]
      refine .command ?_ trail isWord listed inPlace
      exact fun child member => (List.mem_append.mp member).elim (beside child) (lead child)

theorem LineShape.behind (shape : LineShape dialect block? start children edge?)
    (beside : ∀ child ∈ aside, child.Among Kind.standsAside) :
    LineShape dialect block? start (children ++ aside) edge? := by
  cases shape with
  | plain stands =>
      refine .plain fun child member => ?_
      exact (List.mem_append.mp member).elim (stands child)
        (fun late => (beside child late).mono Kind.standsPlain_of_standsAside)
  | command lead trail isWord listed inPlace =>
      rw [List.append_assoc, List.cons_append]
      refine .command lead ?_ isWord listed inPlace
      exact fun child member => (List.mem_append.mp member).elim (trail child) (beside child)

end

namespace Statement

variable {block? : Option BlockKind} {first second third draft : Draft}

/-- Between two drafts, children of a line have been written that have this effect on
the blocks. -/
def States (dialect : Dialect) (block? : Option BlockKind) (before : Draft)
    (result : Draft × Option BlockEdge) : Prop :=
  ∃ trees reports, Wrote trees reports before result.1 ∧
    Sound dialect (fun _ => true) trees reports ∧
      LineShape dialect block? before.offset trees result.2

theorem states_of_writes (writes : Writes dialect Kind.standsPlain first second) :
    States dialect block? first (second, none) := by
  obtain ⟨trees, reports, wrote, sound⟩ := writes
  exact ⟨trees, reports, wrote, sound.mono fun _ _ => rfl, .plain sound.among⟩

theorem States.after {result : Draft × Option BlockEdge}
    (states : States dialect block? second result)
    (aside : Writes dialect Kind.standsAside first second) :
    States dialect block? first result := by
  obtain ⟨trees, reports, wrote, sound, shape⟩ := states
  obtain ⟨early, others, wroteEarly, beside⟩ := aside
  refine ⟨early ++ trees, reports ++ others, wroteEarly.append wrote,
    (beside.mono fun _ _ => rfl).append sound, LineShape.before ?_ beside.among⟩
  rw [wroteEarly.offset] at shape
  exact shape

theorem States.andThen {edge? : Option BlockEdge}
    (states : States dialect block? first (second, edge?))
    (aside : Writes dialect Kind.standsAside second third) :
    States dialect block? first (third, edge?) := by
  obtain ⟨trees, reports, wrote, sound, shape⟩ := states
  obtain ⟨late, others, wroteLate, beside⟩ := aside
  exact ⟨trees ++ late, others ++ reports, wrote.append wroteLate,
    sound.append (beside.mono fun _ _ => rfl), shape.behind beside.among⟩

theorem directiveAt?_eq_some {directive : Directive}
    (found : directiveAt? dialect draft 0 = some directive) :
    ∃ word behind, draft.upcoming = word :: behind ∧ word.kind = .directiveKw ∧
      dialect.directive? word.text = some directive := by
  have stands : draft.peek = .directiveKw := kindAt_of_directiveAt? found
  obtain ⟨word, behind, ahead, -⟩ :=
    upcoming_of_not_atLineEnd (not_atLineEnd_of_peek stands rfl)
  rw [directiveAt?, if_pos (show draft.kindAt 0 = .directiveKw from stands),
    textAt_of_upcoming ahead] at found
  exact ⟨word, behind, ahead, (peek_of_upcoming ahead).symm.trans stands, found⟩

theorem wrote_command {directive : Directive} {word : Token} {behind : List Token}
    (ahead : draft.upcoming = word :: behind) (isWord : word.kind = .directiveKw)
    (listed : dialect.directive? word.text = some directive) :
    ∃ arguments reports,
      Wrote (draft.trivia.map .leaf ++ [.node .directive (.leaf word :: arguments)]) reports
          draft (command directive draft) ∧
        Formed dialect (.node .directive (.leaf word :: arguments)) ∧
          ∀ diagnostic ∈ reports, diagnostic.IsOfLine := by
  have aheadInside : (draft.enter .plain).upcoming = word :: behind := by
    rw [upcoming_enter, ahead]
  have taken := wrote_bump aheadInside
  rw [trivia_enter] at taken
  have plain : (draft.enter .plain).bump.role = .plain := by
    rw [role_bump, role_enter]
  obtain ⟨arguments, reports, wrote, sound⟩ :=
    Arguments.writer_read dialect directive.arguments _ plain
  have whole : Sound dialect Kind.directive.holds ([.leaf word] ++ arguments) (reports ++ []) :=
    (sound_leaf word).append sound
  have closed := wrote_leave (taken.append wrote) (by simp) .directive
  rw [List.append_nil] at closed
  exact ⟨arguments, reports, closed,
    .node whole.among ⟨directive, .intro isWord listed⟩ whole.formed, sound.ofLine⟩

theorem isOfLine_of_misplaced? {directive : Directive} {cause : Cause}
    (found : misplaced? block? directive = some cause) : cause.IsOfLine := by
  unfold misplaced? at found
  split at found
  · split at found <;> cases found
    simp
  · cases found
    simp
  · contradiction
  · cases found
    simp
  · contradiction
  · contradiction

/-- A closing command is in place in a block of its own kind only. -/
theorem innermost_of_closes {command : Directive} {closed : BlockKind}
    (isCloser : command.role = .closes closed) (inPlace : misplaced? block? command = none) :
    block? = some closed := by
  unfold misplaced? at inPlace
  rw [isCloser] at inPlace
  cases block? with
  | none => contradiction
  | some innermost =>
      by_cases same : closed = innermost
      · rw [same]
      · simp [same] at inPlace

theorem innermost_of_branch {command : Directive} (divides : command.role = .branch)
    (inPlace : misplaced? block? command = none) : block? = some .conditional := by
  unfold misplaced? at inPlace
  rw [divides] at inPlace
  split at inPlace
  all_goals first | contradiction | rfl

theorem edge?_eq_opens {span keyword : Span} {role : BlockRole} {block : BlockKind}
    (edge : some (.opens block keyword) = edge? span role) :
    role = .opens block ∧ keyword = span := by
  unfold edge? at edge
  split at edge
  · obtain ⟨rfl, rfl⟩ : block = _ ∧ keyword = span := by simpa using edge
    exact ⟨rfl, rfl⟩
  all_goals simp at edge

theorem edge?_eq_closes {span : Span} {role : BlockRole}
    (edge : some .closes = edge? span role) : ∃ block, role = .closes block := by
  unfold edge? at edge
  split at edge
  · simp at edge
  · exact ⟨_, rfl⟩
  all_goals simp at edge

theorem states_directive (draft : Draft) :
    States dialect block? draft (directive dialect block? draft) := by
  unfold directive
  split
  · exact states_of_writes (writes_recover rfl .unlistedDirective (by simp) _ draft)
  · next directive listed =>
      split
      · next cause misplaced =>
          exact states_of_writes
            (writes_recover rfl cause (isOfLine_of_misplaced? misplaced) _ draft)
      · next inPlace =>
          obtain ⟨word, behind, ahead, isWord, spelled⟩ := directiveAt?_eq_some listed
          obtain ⟨arguments, reports, wrote, formed, ofLine⟩ :=
            wrote_command ahead isWord spelled
          have sound : Sound dialect (fun _ => true)
              (draft.trivia.map .leaf ++ [.node .directive (.leaf word :: arguments)]) [] :=
            (sound_leaves draft.trivia).append (sound_singleton formed rfl)
          refine ⟨_, reports, wrote, ⟨sound.formed, sound.among, ofLine⟩, ?_⟩
          have keyword : draft.nextSpan =
              ⟨draft.offset + Token.totalLength (allTokens (draft.trivia.map .leaf)),
                draft.offset + Token.totalLength (allTokens (draft.trivia.map .leaf)) +
                  word.length⟩ := by
            rw [nextSpan, ahead, allTokens_map_leaf]
            rfl
          rw [keyword]
          exact .command (among_leaves _ _) (by simp)
            isWord spelled inPlace

theorem writes_instruction (draft : Draft) :
    Writes dialect Kind.standsPlain draft (instruction draft) :=
  writes_node .instruction rfl (fun _ => trivial) fun inner plain =>
    (writes_bump inner).andThen plain Operand.writer_read

theorem writes_assignment (draft : Draft) :
    Writes dialect Kind.standsPlain draft (assignment draft) :=
  writes_node .symbolAssignment rfl (fun _ => trivial) fun inner plain =>
    ((writes_bump inner).trans (writes_bump _)).andThen plain (Expression.writer_read dialect)

theorem writer_callArguments : Writer dialect Kind.macroCall.holds fun draft =>
    if draft.atLineEnd then draft
    else draft.separated fun draft =>
      if draft.peek = .comma then draft else rawArgument draft := by
  intro draft plain
  dsimp only
  split
  · exact .refl draft
  · refine writer_separated (fun item _ => ?_) draft plain
    split
    · exact .refl item
    · exact writes_node .macroArg rfl (fun _ => trivial) fun argument _ =>
        writes_takeTokens _ _ argument

theorem writes_macroCall (draft : Draft) :
    Writes dialect Kind.standsPlain draft (macroCall draft) :=
  writes_node .macroCall rfl (fun _ => trivial) fun inner plain =>
    (writes_bump inner).andThen plain writer_callArguments

theorem writesNode_macroCall (goesOn : draft.atLineEnd = false) :
    WritesNode dialect .macroCall draft (macroCall draft) :=
  writesNode_leave goesOn (writer_callArguments _ (by rw [role_bump, role_enter]))

theorem shape_field_of_isOperand {trees : List Written}
    (among : ∀ child ∈ trees, child.Among Kind.isOperand) : Shape dialect .field trees := by
  intro child member isNode isDirective
  rcases among child member with isToken | isOperand
  · rw [isNode] at isToken
    contradiction
  · rw [isDirective] at isOperand
    contradiction

theorem shape_field_append {trees more : List Written}
    (shape : Shape dialect .field trees) (next : Shape dialect .field more) :
    Shape dialect .field (trees ++ more) :=
  fun child member => (List.mem_append.mp member).elim (shape child) (next child)

theorem directiveAt?_of_upcoming {other : Draft} (same : draft.upcoming = other.upcoming)
    (index : Nat) : directiveAt? dialect draft index = directiveAt? dialect other index := by
  rw [directiveAt?, directiveAt?, kindAt_of_upcoming same, textAt, textAt,
    tokenAt?_of_upcoming same]

theorem storage?_eq_some {directive : Directive}
    (found : storage? dialect draft = some directive) :
    directiveAt? dialect draft 0 = some directive ∧ directive.role = .plain := by
  simpa [storage?, Option.filter_eq_some_iff] using found

theorem wrote_storage {directive : Directive}
    (found : storage? dialect draft = some directive) :
    ∃ trees reports, Wrote trees reports draft (command directive draft) ∧
      Sound dialect Kind.field.holds trees reports ∧ Shape dialect .field trees := by
  obtain ⟨listed, isPlain⟩ := storage?_eq_some found
  obtain ⟨word, behind, ahead, isWord, spelled⟩ := directiveAt?_eq_some listed
  obtain ⟨arguments, reports, wrote, formed, ofLine⟩ := wrote_command ahead isWord spelled
  have leaves : Sound dialect Kind.field.holds (draft.trivia.map .leaf) [] := sound_leaves _
  have sound := leaves.append (sound_singleton formed rfl)
  refine ⟨_, reports, wrote, ⟨sound.formed, sound.among, ofLine⟩,
    shape_field_append (shape_field_of_isOperand (among_leaves _ _)) ?_⟩
  intro child member _ _
  obtain rfl := List.mem_singleton.mp member
  exact ⟨directive, .intro isWord spelled, isPlain⟩

theorem wrote_fieldValue (dialect : Dialect) (plain : draft.role = .plain) :
    ∃ trees reports, Wrote trees reports draft (fieldValue dialect draft) ∧
      Sound dialect Kind.field.holds trees reports ∧ Shape dialect .field trees := by
  unfold fieldValue
  split
  · obtain ⟨trees, reports, wrote, sound⟩ :=
      (writes_bump draft).andThen plain (Expression.writer_read dialect)
    exact ⟨trees, reports, wrote, sound.mono fun kind isOperand => by simp [Kind.holds, isOperand],
      shape_field_of_isOperand sound.among⟩
  · split
    · next found => exact wrote_storage found
    · exact ⟨[], [], builds_refl draft, sound_nil, by simp [Shape]⟩

theorem writes_field? {after : Draft} (read : field? dialect draft = some after) :
    Writes dialect Kind.standsPlain draft after := by
  unfold field? at read
  split at read
  · obtain ⟨directive, found, rfl⟩ := Option.map_eq_some_iff.mp read
    have foundInside : storage? dialect (draft.enter .plain) = some directive := by
      rwa [storage?, directiveAt?_of_upcoming (upcoming_enter .plain draft)]
    obtain ⟨trees, reports, wrote, sound, shape⟩ := wrote_storage foundInside
    exact writes_leave rfl wrote sound shape
  · obtain rfl := Option.some.inj read
    have goesOn : (draft.enter .plain).atLineEnd = false := by
      rw [atLineEnd_enter]
      exact not_atLineEnd_of_peek (by assumption) rfl
    obtain ⟨token, behind, ahead, -⟩ := upcoming_of_not_atLineEnd goesOn
    have plain : (draft.enter .plain).bump.role = .plain := by
      rw [role_bump, role_enter]
    obtain ⟨trees, reports, wrote, sound, shape⟩ := wrote_fieldValue dialect plain
    have first : Sound dialect Kind.field.holds
        (((draft.enter .plain).trivia ++ [token]).map .leaf) [] := sound_leaves _
    rw [List.map_append] at first
    refine writes_leave rfl ((wrote_bump ahead).append wrote) (first.append sound)
      (shape_field_append (shape_field_of_isOperand ?_) shape)
    have leaves := among_leaves Kind.isOperand ((draft.enter .plain).trivia ++ [token])
    rwa [List.map_append] at leaves
  · contradiction

theorem states_announced (draft : Draft) :
    States dialect block? draft (announced dialect block? draft) := by
  unfold announced
  split
  · exact states_directive draft
  · exact states_of_writes (writes_instruction draft)
  · exact states_of_writes (.refl draft)

theorem states_regular (draft : Draft) :
    States dialect block? draft (regular dialect block? draft) := by
  unfold regular
  split
  · exact states_of_writes (.refl draft)
  · exact states_of_writes (.refl draft)
  · exact states_announced draft
  · exact states_announced draft
  · refine states_of_writes ?_
    split
    · exact writes_assignment draft
    · exact writes_macroCall draft
  · exact states_of_writes (writes_recover rfl (.unknownDirective _) (by simp) _ draft)
  · split
    · exact states_of_writes (writes_assignment draft)
    · exact (states_announced _).after (writes_recover rfl .expectedStatement (by simp) _ draft)

theorem states_read (dialect : Dialect) (block? : Option BlockKind) (draft : Draft) :
    States dialect block? draft (read dialect block? draft) := by
  unfold read
  split
  · next found =>
      split at found
      · exact states_of_writes (writes_field? found)
      · contradiction
  · exact states_regular draft

end Statement

namespace Line

variable {block? : Option BlockKind}

theorem writes_labels (fuel : Nat) (first : Bool) (draft : Draft) :
    Writes dialect Kind.standsAside draft (labels fuel first draft) := by
  have labelled (draft : Draft) :
      Writes dialect Kind.standsAside draft
        (draft.node .label fun inner => inner.bump.bump) :=
    writes_node .label rfl (fun _ => trivial) fun inner _ =>
      (writes_bump inner).trans (writes_bump _)
  induction fuel generalizing first draft with
  | zero => exact .refl draft
  | succ fuel ih =>
      unfold labels
      split
      · split
        · exact (labelled draft).trans (ih _ _)
        · exact .refl draft
      · split
        · exact (labelled draft).trans (ih _ _)
        · exact .refl draft
      · split
        · refine Writes.trans ?_ (ih _ _)
          exact writes_node .label rfl (fun _ => trivial) fun inner _ => writes_bump inner
        · exact .refl draft
      · exact .refl draft

theorem writes_finish (draft : Draft) :
    Writes dialect Kind.standsAside draft (finish draft) := by
  unfold finish
  split
  · exact writes_bump draft
  · exact writes_takeTrivia draft

theorem writes_toLineEnd (draft : Draft) :
    Writes dialect Kind.standsAside draft (toLineEnd draft) := by
  unfold toLineEnd
  split
  · exact .refl draft
  · exact writes_recover rfl .expectedEndOfLine (by simp) _ draft

/-- A line with its tokens, as it has been read. -/
structure WrittenAs (dialect : Dialect) (block? : Option BlockKind) (tokens : List Token)
    (line : Line) (children : List Written) : Prop where
  tree : line.tree = (Written.node .line children).tree
  tokens : allTokens children = tokens
  formed : ∀ child ∈ children, child.Formed dialect
  shape : LineShape dialect block? 0 children line.edge?
  ofLine : ∀ diagnostic ∈ line.diagnostics, diagnostic.IsOfLine

theorem exists_writtenAs (dialect : Dialect) (block? : Option BlockKind) {tokens : List Token}
    (scanned : ∀ token ∈ tokens, Scan.IsScanned token) (isLine : Token.IsLine tokens) :
    ∃ children, WrittenAs dialect block? tokens (read dialect block? tokens) children := by
  have labelled : Writes dialect Kind.standsAside { rest := tokens }
      (labels tokens.length true { rest := tokens }) := writes_labels _ _ _
  have stated := (Statement.states_read dialect block? _).after labelled
  have finished := (stated.andThen (writes_toLineEnd _)).andThen (writes_finish _)
  obtain ⟨children, reports, wrote, sound, shape⟩ := finished
  change Wrote children reports _ (finish (Line.stated dialect block? tokens)) at wrote
  have forest : (finish (Line.stated dialect block? tokens)).sketch.trees =
      children.map Written.tree := by
    rw [trees_stated dialect block? scanned isLine, wrote.sketch, Sketch.forest_addAll]
    rfl
  refine ⟨children, ?_, ?_, sound.formed, shape, ?_⟩
  · rw [read_tree, forest, tree_node]
  · have whole := wrote.rest
    rw [(finished_stated dialect block? scanned isLine).rest] at whole
    simpa [Frame.allTokens] using whole.symm
  · intro diagnostic member
    rw [read_diagnostics, List.mem_reverse, wrote.diagnostics, List.append_nil] at member
    exact sound.ofLine diagnostic member

end Line
end Asm6502
