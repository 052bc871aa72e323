import Asm6502.Line
import Asm6502.Proofs.DraftCongruence
import Asm6502.Proofs.LineShape

/-!
# The grammar keeps congruences

Expressions, arguments, operands, statements and whole lines are read alike from
drafts that a congruence relates: at every turn the rules see the same, do the same
and leave related drafts behind.
-/

namespace Asm6502

open Draft

variable {Rel : Draft → Draft → Prop} (congruence : Congruence Rel)
include congruence

namespace Expression

theorem respects_single {kind : Kind} (notError : kind ≠ .errorNode) :
    Respects Rel (single kind) :=
  congruence.node notError fun _ _ => congruence.bump

theorem scopes_congr {tokens others : List Token} (sameLength : tokens.length = others.length)
    {draft other : Draft} (related : Rel draft other) :
    (scopes tokens draft).1 = (scopes others other).1 ∧
      Rel (scopes tokens draft).2 (scopes others other).2 := by
  induction tokens generalizing others draft other with
  | nil =>
      obtain rfl := List.eq_nil_of_length_eq_zero sameLength.symm
      exact ⟨rfl, related⟩
  | cons token tokens ih =>
      cases others with
      | nil => contradiction
      | cons first others =>
          have passed := congruence.bump related
          simp only [scopes]
          rw [(congruence.looksLike related).peek, (congruence.looksLike passed).peek]
          split
          · split
            · exact ⟨rfl, (ih (Nat.succ.inj sameLength) (congruence.bump passed)).2⟩
            · exact ⟨rfl, congruence.error _ passed⟩
          · exact ⟨rfl, related⟩

theorem respects_name : Respects Rel name := by
  intro draft other related
  have entered := congruence.enter .plain related
  -- What stands in front of the chain of scopes.
  have head : ∃ rooted start start', Rel start start' ∧
      (if (draft.enter .plain).peek = .colon2 then
          (true, (draft.enter .plain).bump.expect .ident .expectedName)
        else (false, (draft.enter .plain).bump)) = (rooted, start) ∧
      (if (other.enter .plain).peek = .colon2 then
          (true, (other.enter .plain).bump.expect .ident .expectedName)
        else (false, (other.enter .plain).bump)) = (rooted, start') := by
    rw [(congruence.looksLike entered).peek]
    split
    · exact ⟨_, _, _, congruence.expect _ _ (congruence.bump entered), rfl, rfl⟩
    · exact ⟨_, _, _, congruence.bump entered, rfl, rfl⟩
  obtain ⟨rooted, start, start', started, first, second⟩ := head
  obtain ⟨sameScopes, chained⟩ :=
    scopes_congr congruence (congruence.looksLike started).length_rest started
  unfold name
  simp only [first, second, sameScopes]
  refine congruence.leave ?_ chained
  split <;> decide

theorem respects_rawArgument : Respects Rel rawArgument :=
  congruence.node (by decide) fun _ _ related => (congruence.takeTokens _ _ related).2

theorem respects_macroCall : Respects Rel macroCall := by
  apply congruence.node (by decide)
  intro draft other related
  refine congruence.expect _ _ (congruence.separated ?_ (congruence.bump (congruence.bump related)))
  intro draft other related
  dsimp only
  rw [(congruence.looksLike related).peek]
  split
  · exact related
  · exact related
  · exact related
  · exact related
  · exact respects_rawArgument congruence related

theorem respects_braced : Respects Rel braced := by
  apply congruence.node (by decide)
  intro draft other related
  obtain ⟨sameDepth, taken⟩ := congruence.takeTokens braced.step 1 (congruence.bump related)
  simp only [sameDepth]
  split
  · exact taken
  · exact congruence.error _ taken

/-- Related states of the machine: the same stage of related drafts. -/
def Alike (Rel : Draft → Draft → Prop) (state other : State) : Prop :=
  state.1 = other.1 ∧ Rel state.2 other.2

omit congruence in
theorem primaryKind?_ne_errorNode {inCall : Bool} {token kind : Kind}
    (found : primaryKind? inCall token = some kind) : kind ≠ .errorNode := by
  rintro rfl
  unfold primaryKind? at found
  split at found <;> simp_all

theorem alike_primary {draft other : Draft} (related : Rel draft other) :
    Alike Rel (primary draft) (primary other) := by
  have alike := congruence.looksLike related
  unfold primary
  simp only [alike.atMacroCall, alike.role, alike.peek]
  split
  · exact ⟨rfl, respects_macroCall congruence related⟩
  · split
    · next kind found =>
        exact ⟨rfl, respects_single congruence (primaryKind?_ne_errorNode found) related⟩
    · next notSingle =>
        have strayed (goesOn : other.peek.endsLine = false) :
            Rel (primary.stray draft) (primary.stray other) :=
          congruence.stray related (by rw [alike.atLineEnd]; exact goesOn)
        split
        · exact ⟨rfl, respects_name congruence related⟩
        · exact ⟨rfl, respects_name congruence related⟩
        · exact ⟨rfl, congruence.error _ related⟩
        · exact ⟨rfl, congruence.error _ related⟩
        · exact ⟨rfl, congruence.error _ related⟩
        · exact ⟨rfl, congruence.error _ related⟩
        · next brace =>
            split
            · exact ⟨rfl, respects_braced congruence related⟩
            · exact ⟨rfl, strayed (by rw [brace]; rfl)⟩
        · next notEol notEof _ _ _ =>
            exact ⟨rfl, strayed (endsLine_eq_false notEol notEof)⟩

theorem alike_callHead {draft other : Draft} (related : Rel draft other) :
    Alike Rel (callHead draft) (callHead other) := by
  have headed := congruence.bump (congruence.enter .call related)
  have opened := congruence.bump headed
  unfold callHead
  simp only [(congruence.looksLike headed).peek, (congruence.looksLike opened).peek]
  split
  · split
    · exact ⟨rfl, congruence.leave (by decide) (congruence.bump opened)⟩
    · exact ⟨rfl, opened⟩
  · exact ⟨rfl, congruence.leave (by decide) (congruence.error _ headed)⟩

theorem alike_operandStep {draft other : Draft} (related : Rel draft other) :
    Alike Rel (operandStep draft) (operandStep other) := by
  have alike := congruence.looksLike related
  unfold operandStep
  rw [alike.prefixPower?]
  cases Operator.prefixPower? other.peek (other.textAt 0) with
  | some power => exact ⟨rfl, congruence.bump (congruence.enter _ related)⟩
  | none =>
      simp only [alike.peek]
      split
      · exact ⟨rfl, congruence.bump (congruence.enter _ related)⟩
      · exact alike_callHead congruence related
      · exact alike_primary congruence related

theorem alike_closeStep {draft other : Draft} (related : Rel draft other) :
    Alike Rel (closeStep draft) (closeStep other) := by
  have alike := congruence.looksLike related
  have closed {kind : Kind} (notError : kind ≠ .errorNode) :
      Rel ((draft.expect .rightParen .expectedClosingParen).leave kind)
        ((other.expect .rightParen .expectedClosingParen).leave kind) :=
    congruence.leave notError (congruence.expect _ _ related)
  unfold closeStep
  simp only [alike.role, alike.peek]
  split
  · exact ⟨rfl, related⟩
  · exact ⟨rfl, congruence.leave (by decide) related⟩
  · exact ⟨rfl, congruence.leave (by decide) related⟩
  · exact ⟨rfl, closed (by decide)⟩
  · split
    · exact ⟨rfl, congruence.bump related⟩
    · exact ⟨rfl, closed (by decide)⟩

theorem alike_operatorStep (complete : Bool) {draft other : Draft}
    (related : Rel draft other) :
    Alike Rel (operatorStep complete draft) (operatorStep complete other) := by
  have alike := congruence.looksLike related
  unfold operatorStep
  simp only [alike.infixPower?, alike.role]
  cases Operator.infixPower? other.peek (other.textAt 0) with
  | none => exact alike_closeStep congruence related
  | some power =>
      dsimp only
      split
      · exact ⟨rfl, congruence.bump (congruence.wrap _ related)⟩
      · exact alike_closeStep congruence related

theorem alike_run (fuel : Nat) {state other : State} (alike : Alike Rel state other) :
    Alike Rel (run fuel state) (run fuel other) := by
  induction fuel generalizing state other with
  | zero => exact alike
  | succ fuel ih =>
      obtain ⟨stage, draft⟩ := state
      obtain ⟨stage', draft'⟩ := other
      obtain ⟨rfl, related⟩ := alike
      cases stage with
      | operand => exact ih (alike_operandStep congruence related)
      | operator complete => exact ih (alike_operatorStep congruence complete related)
      | done => exact ⟨rfl, related⟩

theorem respects_read : Respects Rel read := by
  intro draft other related
  have sameFuel := (congruence.looksLike related).length_rest
  have started : Alike Rel (.operand, draft) (.operand, other) := ⟨rfl, related⟩
  unfold read
  rw [runAlong_eq_run, runAlong_eq_run, sameFuel]
  exact (alike_run congruence _ started).2

end Expression

namespace Arguments

theorem respects_sizedExpression : Respects Rel sizedExpression := by
  intro draft other related
  have read := Expression.respects_read congruence related
  unfold sizedExpression
  simp only [(congruence.looksLike read).peek]
  split
  · exact congruence.expect _ _ (congruence.bump read)
  · exact read

theorem respects_expressions : Respects Rel expressions := by
  intro draft other related
  unfold expressions
  rw [(congruence.looksLike related).atLineEnd]
  split
  · exact related
  · exact congruence.separated (respects_sizedExpression congruence) related

theorem respects_sign : Respects Rel sign := by
  intro draft other related
  unfold sign
  simp only [(congruence.looksLike related).peek]
  split
  · exact congruence.bump related
  · exact congruence.bump related
  · exact related

theorem respects_words : Respects Rel words := by
  intro draft other related
  unfold words
  rw [(congruence.looksLike related).atLineEnd]
  split
  · exact related
  · apply congruence.separated _ related
    exact fun _ _ related => respects_sign congruence (congruence.expect _ _ related)

theorem respects_toggle : Respects Rel toggle := by
  intro draft other related
  unfold toggle
  rw [(congruence.looksLike related).peek]
  split
  · exact congruence.bump related
  · exact respects_sign congruence related

theorem respects_parameter : Respects Rel parameter := by
  intro draft other related
  unfold parameter
  simp only [(congruence.looksLike related).peek]
  split
  · exact congruence.bump related
  · exact congruence.bump related
  · exact congruence.bump related
  · exact congruence.error _ related

theorem respects_macroHeader : Respects Rel macroHeader := by
  intro draft other related
  have named := congruence.bump related
  unfold macroHeader
  simp only [(congruence.looksLike related).peek, (congruence.looksLike named).atLineEnd]
  split
  · split
    · exact named
    · exact congruence.separated (respects_parameter congruence) named
  · exact congruence.error _ related

theorem respects_parameters : Respects Rel parameters := by
  intro draft other related
  have opened := congruence.bump related
  unfold parameters
  simp only [(congruence.looksLike opened).peek]
  apply congruence.expect
  split
  · exact opened
  · exact congruence.separated (respects_parameter congruence) opened

theorem respects_replacement : Respects Rel replacement := by
  intro draft other related
  unfold replacement
  rw [(congruence.looksLike related).atLineEnd]
  split
  · exact related
  · exact congruence.node (by decide) (congruence.takeUntil _) related

theorem respects_definition : Respects Rel definition := by
  intro draft other related
  have named := congruence.bump related
  unfold definition
  simp only [(congruence.looksLike related).peek, (congruence.looksLike named).head?_any]
  split
  · apply respects_replacement congruence
    split
    · exact respects_parameters congruence named
    · exact named
  · exact congruence.error _ related

theorem respects_read (shape : ArgumentShape) : Respects Rel (read shape) := by
  cases shape with
  | none => exact fun _ _ related => related
  | expressions => exact respects_expressions congruence
  | assignment => exact respects_expressions congruence
  | toggle => exact respects_toggle congruence
  | words => exact respects_words congruence
  | macroHeader => exact respects_macroHeader congruence
  | define => exact respects_definition congruence

end Arguments

namespace Operand

omit congruence in
theorem hasSize_congr {draft other : Draft} (alike : LooksLike draft other) :
    hasSize draft = hasSize other := by
  unfold hasSize isSize
  rw [alike.peek, alike.kindAt, alike.lower_textAt]

omit congruence in
theorem isIndirect_congr {draft other : Draft} (alike : LooksLike draft other) :
    isIndirect draft = isIndirect other := by
  unfold isIndirect
  rw [alike.map_kind_significant]

theorem respects_index (cause : Cause) : Respects Rel (index cause) := by
  intro draft other related
  unfold index
  rw [(congruence.looksLike related).peek]
  split
  · exact congruence.expect _ _ (congruence.bump related)
  · exact related

theorem respects_address : Respects Rel address := by
  intro draft other related
  have sized : Rel (if hasSize draft then draft.bump.bump else draft)
      (if hasSize other then other.bump.bump else other) := by
    rw [hasSize_congr (congruence.looksLike related)]
    split
    · exact congruence.bump (congruence.bump related)
    · exact related
  unfold address
  generalize (if hasSize draft then draft.bump.bump else draft) = start at sized ⊢
  generalize (if hasSize other then other.bump.bump else other) = start' at sized ⊢
  have alike := congruence.looksLike sized
  simp only [alike.peek, isIndirect_congr alike]
  apply respects_index congruence
  split
  · exact congruence.expect _ _ (respects_index congruence _
      (Expression.respects_read congruence (congruence.bump sized)))
  · exact Expression.respects_read congruence sized

theorem respects_read : Respects Rel read := by
  intro draft other related
  unfold read
  rw [(congruence.looksLike related).atLineEnd]
  split
  · exact related
  · apply congruence.node (by decide) _ related
    intro draft other related
    have alike := congruence.looksLike related
    simp only [alike.peek, alike.kindAt]
    split
    · exact Expression.respects_read congruence (congruence.bump related)
    · split
      · exact congruence.bump related
      · exact respects_address congruence related
    · exact respects_address congruence related

end Operand

omit congruence in
theorem Dialect.keyword?_congr (dialect : Dialect) {word other : Bytes}
    (same : Bytes.lower word = Bytes.lower other) :
    dialect.keyword? word = dialect.keyword? other := by
  have sameLength : word.length = other.length := by
    simpa [Bytes.lower] using congrArg List.length same
  have sameEmpty : word.isEmpty = other.isEmpty := by
    cases word <;> cases other <;> simp_all
  unfold keyword? canBeKeyword
  rw [sameLength, sameEmpty, same]

omit congruence in
theorem Dialect.directive?_congr (dialect : Dialect) {word other : Bytes}
    (same : Bytes.lower word = Bytes.lower other) :
    dialect.directive? word = dialect.directive? other := by
  unfold directive?
  rw [dialect.keyword?_congr same]

/-- The effects of two lines agree: the same block is opened, by words that stand next
in related drafts, or both close a block. -/
inductive BlockEdge.Agree (Rel : Draft → Draft → Prop) :
    Option BlockEdge → Option BlockEdge → Prop
  | none : Agree Rel none none
  | opens (block : BlockKind) {draft other : Draft} :
      Rel draft other → draft.peek = .directiveKw →
        Agree Rel (some (.opens block draft.nextSpan)) (some (.opens block other.nextSpan))
  | closes : Agree Rel (some .closes) (some .closes)

namespace Statement

variable (dialect : Dialect) (block? : Option BlockKind)

omit congruence in
theorem directiveAt?_congr {draft other : Draft} (alike : LooksLike draft other) (index : Nat) :
    directiveAt? dialect draft index = directiveAt? dialect other index := by
  unfold directiveAt?
  rw [alike.kindAt, dialect.directive?_congr (alike.lower_textAt index)]

theorem respects_command (directive : Directive) : Respects Rel (command directive) :=
  congruence.node (by decide) fun _ _ related =>
    Arguments.respects_read congruence _ (congruence.bump related)

/-- What a statement leaves behind, and its effect on the open blocks. -/
def Alike (Rel : Draft → Draft → Prop) (result other : Draft × Option BlockEdge) : Prop :=
  Rel result.1 other.1 ∧ BlockEdge.Agree Rel result.2 other.2

theorem alike_directive {draft other : Draft} (related : Rel draft other) :
    Alike Rel (directive dialect block? draft) (directive dialect block? other) := by
  unfold directive
  rw [directiveAt?_congr dialect (congruence.looksLike related)]
  cases found : directiveAt? dialect other 0 with
  | none => exact ⟨congruence.recover _ _ related, .none⟩
  | some directive =>
      dsimp only
      cases misplaced? block? directive with
      | some cause => exact ⟨congruence.recover _ _ related, .none⟩
      | none =>
          refine ⟨respects_command congruence directive related, ?_⟩
          have word : draft.peek = .directiveKw := by
            rw [(congruence.looksLike related).peek]
            exact kindAt_of_directiveAt? found
          cases directive.role with
          | plain => exact .none
          | opens block => exact .opens block related word
          | branch => exact .none
          | closes => exact .closes

theorem respects_instruction : Respects Rel instruction :=
  congruence.node (by decide) fun _ _ related =>
    Operand.respects_read congruence (congruence.bump related)

theorem respects_assignment : Respects Rel assignment :=
  congruence.node (by decide) fun _ _ related =>
    Expression.respects_read congruence (congruence.bump (congruence.bump related))

omit congruence in
theorem isAssignment_congr {draft other : Draft} (alike : LooksLike draft other) :
    isAssignment dialect draft = isAssignment dialect other := by
  unfold isAssignment
  rw [alike.kindAt, directiveAt?_congr dialect alike]

theorem respects_rawArgument : Respects Rel rawArgument :=
  congruence.node (by decide) fun _ _ related => (congruence.takeTokens _ _ related).2

theorem respects_macroCall : Respects Rel macroCall := by
  apply congruence.node (by decide)
  intro draft other related
  have named := congruence.bump related
  simp only [(congruence.looksLike named).atLineEnd]
  split
  · exact named
  · apply congruence.separated _ named
    intro draft other related
    dsimp only
    rw [(congruence.looksLike related).peek]
    split
    · exact related
    · exact respects_rawArgument congruence related

omit congruence in
theorem storage?_congr {draft other : Draft} (alike : LooksLike draft other) :
    storage? dialect draft = storage? dialect other := by
  unfold storage?
  rw [directiveAt?_congr dialect alike]

theorem respects_fieldValue : Respects Rel (fieldValue dialect) := by
  intro draft other related
  have alike := congruence.looksLike related
  unfold fieldValue
  rw [alike.peek, storage?_congr dialect alike]
  split
  · exact Expression.respects_read congruence (congruence.bump related)
  · cases storage? dialect other with
    | none => exact related
    | some directive => exact respects_command congruence directive related

theorem field?_congr {draft other : Draft} (related : Rel draft other) :
    (field? dialect draft = none ∧ field? dialect other = none) ∨
      ∃ after after', field? dialect draft = some after ∧
        field? dialect other = some after' ∧ Rel after after' := by
  have alike := congruence.looksLike related
  unfold field?
  simp only [alike.peek, storage?_congr dialect alike]
  split
  · cases storage? dialect other with
    | none => exact .inl ⟨rfl, rfl⟩
    | some directive =>
        exact .inr ⟨_, _, rfl, rfl,
          congruence.node (by decide) (respects_command congruence directive) related⟩
  · refine .inr ⟨_, _, rfl, rfl, congruence.node (by decide) ?_ related⟩
    exact fun _ _ related => respects_fieldValue congruence dialect (congruence.bump related)
  · exact .inl ⟨rfl, rfl⟩

theorem alike_announced {draft other : Draft} (related : Rel draft other) :
    Alike Rel (announced dialect block? draft) (announced dialect block? other) := by
  unfold announced
  simp only [(congruence.looksLike related).peek]
  split
  · exact alike_directive congruence dialect block? related
  · exact ⟨respects_instruction congruence related, .none⟩
  · exact ⟨related, .none⟩

theorem alike_regular {draft other : Draft} (related : Rel draft other) :
    Alike Rel (regular dialect block? draft) (regular dialect block? other) := by
  have alike := congruence.looksLike related
  unfold regular
  simp only [alike.peek, isAssignment_congr dialect alike]
  split
  · exact ⟨related, .none⟩
  · exact ⟨related, .none⟩
  · exact alike_announced congruence dialect block? related
  · exact alike_announced congruence dialect block? related
  · refine ⟨?_, .none⟩
    split
    · exact respects_assignment congruence related
    · exact respects_macroCall congruence related
  · next word => exact ⟨congruence.recoverWord _ related (alike.peek.trans word), .none⟩
  · split
    · exact ⟨respects_assignment congruence related, .none⟩
    · exact alike_announced congruence dialect block? (congruence.recover _ _ related)

theorem alike_read {draft other : Draft} (related : Rel draft other) :
    Alike Rel (read dialect block? draft) (read dialect block? other) := by
  unfold read
  cases block?.any BlockKind.hasFields with
  | false => exact alike_regular congruence dialect block? related
  | true =>
      rcases field?_congr congruence dialect related with
        ⟨first, second⟩ | ⟨after, after', first, second, read⟩
      · simp only [if_true, first, second]
        exact alike_regular congruence dialect block? related
      · simp only [if_true, first, second]
        exact ⟨read, .none⟩

end Statement

namespace Line

variable (dialect : Dialect) (block? : Option BlockKind)

theorem respects_labels (fuel : Nat) (first : Bool) : Respects Rel (labels fuel first) := by
  have respectsTwo : Respects Rel (Draft.node .label fun draft => draft.bump.bump) :=
    congruence.node (by decide) fun _ _ related => congruence.bump (congruence.bump related)
  induction fuel generalizing first with
  | zero => exact fun _ _ related => related
  | succ fuel ih =>
      intro draft other related
      have alike := congruence.looksLike related
      simp only [labels, alike.peek, alike.kindAt]
      split
      · split
        · exact ih false (respectsTwo related)
        · exact related
      · split
        · exact ih false (respectsTwo related)
        · exact related
      · split
        · exact ih false (congruence.node (by decide) (fun _ _ => congruence.bump) related)
        · exact related
      · exact related

theorem respects_finish : Respects Rel finish := by
  intro draft other related
  unfold finish
  rw [(congruence.looksLike related).peek]
  split
  · exact congruence.bump related
  · exact congruence.takeTrivia related

theorem respects_lineEnd : Respects Rel lineEnd := by
  intro draft other related
  unfold lineEnd
  rw [(congruence.looksLike related).atLineEnd]
  split
  · exact respects_finish congruence related
  · exact respects_finish congruence (congruence.recover _ _ related)

/-- A line that has been read: its draft at the end, and its effect on the blocks. -/
def outcome (tokens : List Token) : Draft × Option BlockEdge :=
  let stated := Statement.read dialect block? (labels tokens.length true { rest := tokens })
  (lineEnd stated.1, stated.2)

omit congruence in
theorem read_eq_outcome (tokens : List Token) :
    read dialect block? tokens =
      { tree := .node .line (outcome dialect block? tokens).1.sketch.trees
        diagnostics := (outcome dialect block? tokens).1.diagnostics.reverse
        edge? := (outcome dialect block? tokens).2
        steps := enclose (outcome dialect block? tokens).1.steps.reverse } :=
  rfl

/-- Lines are read alike if they can be told apart neither at their start nor by what
the operations of the grammar do. -/
theorem alike_outcome {tokens others : List Token}
    (start : Rel { rest := tokens } { rest := others }) :
    Statement.Alike Rel (outcome dialect block? tokens) (outcome dialect block? others) := by
  have sameLength : tokens.length = others.length := (congruence.looksLike start).length_rest
  have labelled := respects_labels congruence tokens.length true start
  obtain ⟨stated, edges⟩ := Statement.alike_read congruence dialect block? labelled
  unfold outcome
  rw [← sameLength]
  exact ⟨respects_lineEnd congruence stated, edges⟩

end Line
end Asm6502
