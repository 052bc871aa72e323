import Asm6502.Line
import Asm6502.Proofs.GrammarCongruence
import Asm6502.Proofs.LockstepDrafts
import Asm6502.Proofs.WritingRules

/-!
# The grammar keeps lockstep

Expressions, arguments, operands, statements and whole lines are read alike from drafts
in lockstep, until the first of them is lost.  The rules that take tokens without looking
at each of them are given; what the others do follows from their single operations.
-/

namespace Asm6502

/-- Whether the parentheses that open an operand belong to its addressing mode.  Before
them there can be an address size. -/
def Operand.opensIndirect (draft : Draft) : Bool :=
  let draft := if hasSize draft then draft.bump.bump else draft
  draft.peek = .leftParen && isIndirect draft

namespace Draft

theorem upcoming_bump_of_upcoming {draft other : Draft}
    (same : draft.upcoming = other.upcoming) : draft.bump.upcoming = other.bump.upcoming := by
  cases ahead : draft.upcoming with
  | nil => simp [bump, ahead, ← same]
  | cons token behind =>
      rw [upcoming, upcoming, bump_of_upcoming ahead, bump_of_upcoming (same.symm.trans ahead)]

end Draft

theorem Operand.hasSize_of_upcoming {draft other : Draft}
    (same : draft.upcoming = other.upcoming) : hasSize draft = hasSize other := by
  unfold hasSize Draft.peek Draft.textAt
  rw [Draft.kindAt_of_upcoming same, Draft.kindAt_of_upcoming same,
    Draft.tokenAt?_of_upcoming same]

theorem Operand.isIndirect_of_upcoming {draft other : Draft}
    (same : draft.upcoming = other.upcoming) : isIndirect draft = isIndirect other := by
  rw [isIndirect, isIndirect, Draft.significant_eq_filter_upcoming,
    Draft.significant_eq_filter_upcoming, same]

theorem Operand.opensIndirect_of_upcoming {draft other : Draft}
    (same : draft.upcoming = other.upcoming) : opensIndirect draft = opensIndirect other := by
  have behindSize := Draft.upcoming_bump_of_upcoming (Draft.upcoming_bump_of_upcoming same)
  unfold opensIndirect Draft.peek
  rw [← hasSize_of_upcoming same]
  split <;> dsimp only
  · rw [Draft.kindAt_of_upcoming behindSize, isIndirect_of_upcoming behindSize]
  · rw [Draft.kindAt_of_upcoming same, isIndirect_of_upcoming same]

namespace Draft

/-- A lockstep that the rules keep which take runs of tokens, or lose the first draft.
Operands are judged alike whether they are indirect. -/
structure RuleLockstep (Lost : Draft → Prop) (Rel : Draft → Draft → Prop) : Prop
    extends Lockstep Lost Rel where
  recover {draft other : Draft} (cause : Cause) (stop : Kind → Bool) :
    Rel draft other → Follows Lost Rel (draft.recover cause stop) (other.recover cause stop)
  stray {draft other : Draft} :
    Rel draft other → draft.atLineEnd = false →
      Follows Lost Rel (Expression.primary.stray draft) (Expression.primary.stray other)
  braced {draft other : Draft} :
    Rel draft other → draft.peek = .leftBrace → draft.role = .call →
      Follows Lost Rel (Expression.braced draft) (Expression.braced other)
  call {draft other : Draft} :
    Rel draft other → Expression.atMacroCall draft = true →
      Follows Lost Rel (Expression.macroCall draft) (Expression.macroCall other)
  replacement {draft other : Draft} :
    Rel draft other → draft.sketch.tags ≠ [] →
      Follows Lost Rel ((Arguments.replacement draft).leave .directive)
        ((Arguments.replacement other).leave .directive)
  indirect {draft other : Draft} :
    Rel draft other → draft.peek = .mnemonic →
      Operand.opensIndirect draft.bump = Operand.opensIndirect other.bump

namespace FreeLockstep

variable {Lost : Draft → Prop} {Rel : Draft → Draft → Prop} (free : FreeLockstep Lost Rel)
  {draft other : Draft}
include free

theorem follows_replacement (related : Rel draft other) :
    Follows Lost Rel (Arguments.replacement draft) (Arguments.replacement other) := by
  unfold Arguments.replacement
  rw [← (free.sees related).atLineEnd]
  split
  · exact .inr related
  · next goesOn =>
      have entered := free.enter .plain related (Bool.eq_false_iff.mpr goesOn)
      exact free.follows_leave .macroArg (free.follows_takeUntil _ entered)

theorem follows_expressionCall (related : Rel draft other)
    (call : Expression.atMacroCall draft = true) :
    Follows Lost Rel (Expression.macroCall draft) (Expression.macroCall other) := by
  obtain ⟨first, second, behind, ahead, isIdent, isParen⟩ :=
    Expression.upcoming_of_atMacroCall call
  have inside : (draft.enter .plain).upcoming = first :: second :: behind := by
    rw [upcoming_enter, ahead]
  have word : (draft.enter .plain).peek = .ident := by rw [peek_of_upcoming inside, isIdent]
  have opening : (draft.enter .plain).bump.peek = .leftParen := by
    have next : (draft.enter .plain).bump.rest = second :: behind := by
      rw [bump_of_upcoming inside]
    rw [peek_of_upcoming (upcoming_of_rest next (by rw [Token.isTrivia, isParen]; rfl)), isParen]
  have entered := free.enter .plain related
    ((atLineEnd_enter .plain draft).symm.trans (not_atLineEnd_of_peek word rfl))
  have named := free.bumpKind entered word rfl (by decide)
  have opened := free.bumpKind named opening rfl (by decide)
  refine free.follows_leave .macroCall (free.follows_expect rfl (by decide) _ ?_)
  refine free.follows_separated Expression.rule_argument ?_ ?_
    (by rw [role_bump, role_bump, role_enter]) opened
  · rintro draft _ ⟨rfl, lost⟩
    refine ⟨rfl, ?_⟩
    dsimp only
    split
    all_goals first
      | exact lost
      | exact (Expression.respects_rawArgument free.persistent.congruence ⟨rfl, lost⟩).2
  · intro draft other _ related
    simp only [← (free.sees related).peek]
    split
    · exact .inr related
    · exact .inr related
    · exact .inr related
    · exact .inr related
    · next notEol notEof =>
        exact free.follows_rawArgument related (endsLine_eq_false notEol notEof)

/-- Behind a trailing comma the raw argument of a statement is opened at the line's
end. -/
theorem follows_statementCall
    (enterAtEnd : ∀ ⦃draft other : Draft⦄, Rel draft other →
      Rel (draft.enter .plain) (other.enter .plain))
    (related : Rel draft other) (word : draft.peek = .ident) :
    Follows Lost Rel (Statement.macroCall draft) (Statement.macroCall other) := by
  have entered := enterAtEnd related
  have named := free.bumpKind entered (by rw [peek_enter, word]) rfl (by decide)
  have isRule : Rule fun draft =>
      if draft.peek = .comma then draft else Statement.rawArgument draft := by
    intro draft _
    dsimp only
    split
    · exact .stay draft
    · exact Statement.moves_rawArgument draft
  refine free.follows_leave .macroCall ?_
  dsimp only
  rw [← (free.sees named).atLineEnd]
  split
  · exact .inr named
  · refine free.follows_separated isRule ?_ ?_ (by rw [role_bump, role_enter]) named
    · rintro draft _ ⟨rfl, lost⟩
      refine ⟨rfl, ?_⟩
      dsimp only
      split
      · exact lost
      · exact (Statement.respects_rawArgument free.persistent.congruence ⟨rfl, lost⟩).2
    · intro draft other _ related
      rw [← (free.sees related).peek]
      split
      · exact .inr related
      · exact free.follows_leave .macroArg (free.follows_takeTokens _ _ (enterAtEnd related))

/-- Where any token may be taken, so may runs of tokens. -/
theorem ruleLockstep
    (indirect : ∀ ⦃draft other : Draft⦄, Rel draft other → draft.peek = .mnemonic →
      Operand.opensIndirect draft.bump = Operand.opensIndirect other.bump) :
    RuleLockstep Lost Rel where
  toLockstep := free.toLockstep
  recover cause stop related := free.follows_recover cause stop related
  stray related goesOn := free.follows_stray related goesOn
  braced related brace _ := free.follows_braced related (not_atLineEnd_of_peek brace rfl)
  call related calls := free.follows_expressionCall related calls
  replacement related _ := free.follows_leave _ (free.follows_replacement related)
  indirect related := indirect related

end FreeLockstep

end Draft

open Draft

variable {Lost : Draft → Prop} {Rel : Draft → Draft → Prop}
  (lockstep : RuleLockstep Lost Rel) {draft other : Draft}
include lockstep

namespace Expression

theorem lockstep_single (kind : Kind) (related : Rel draft other)
    (goesOn : draft.atLineEnd = false) (notBrace : draft.peek ≠ .leftBrace) :
    Rel (single kind draft) (single kind other) :=
  lockstep.leave kind (lockstep.enterBump .plain related goesOn notBrace)

theorem lockstep_scopes_go (tokens : List Token) (related : Rel draft other) :
    (scopes tokens draft).1 = (scopes tokens other).1 ∧
      Rel (scopes tokens draft).2 (scopes tokens other).2 := by
  induction tokens generalizing draft other with
  | nil => exact ⟨rfl, related⟩
  | cons token tokens ih =>
      simp only [scopes]
      rw [← (lockstep.sees related).peek]
      split
      · next scope =>
          have passed := lockstep.bumpKind related scope rfl (by decide)
          rw [← (lockstep.sees passed).peek]
          split
          · next ident =>
              exact ⟨rfl, (ih (lockstep.bumpKind passed ident rfl (by decide))).2⟩
          · exact ⟨rfl, lockstep.error _ passed⟩
      · exact ⟨rfl, related⟩

theorem lockstep_scopes (related : Rel draft other) :
    (scopes draft.rest draft).1 = (scopes other.rest other).1 ∧
      Rel (scopes draft.rest draft).2 (scopes other.rest other).2 := by
  have both := lockstep_scopes_go lockstep (draft.rest ++ other.rest) related
  rwa [scopes_of_le (by simp), @scopes_of_le _ other (by simp)] at both

theorem lockstep_name (related : Rel draft other) (goesOn : draft.atLineEnd = false)
    (notBrace : draft.peek ≠ .leftBrace) : Rel (name draft) (name other) := by
  have entered := lockstep.enter .plain related goesOn
  have passed := lockstep.enterBump .plain related goesOn notBrace
  -- What stands in front of the chain of scopes.
  have head : ∃ rooted start start', Rel start start' ∧
      (if (draft.enter .plain).peek = .colon2 then
          (true, (draft.enter .plain).bump.expect .ident .expectedName)
        else (false, (draft.enter .plain).bump)) = (rooted, start) ∧
      (if (other.enter .plain).peek = .colon2 then
          (true, (other.enter .plain).bump.expect .ident .expectedName)
        else (false, (other.enter .plain).bump)) = (rooted, start') := by
    rw [← (lockstep.sees entered).peek]
    split
    · exact ⟨_, _, _, lockstep.expect rfl (by decide) _ passed, rfl, rfl⟩
    · exact ⟨_, _, _, passed, rfl, rfl⟩
  obtain ⟨rooted, start, start', started, first, second⟩ := head
  obtain ⟨sameScopes, chained⟩ := lockstep_scopes lockstep started
  unfold name
  simp only [first, second, sameScopes]
  exact lockstep.leave _ chained

/-- The machine is in the same stage with drafts in lockstep, or the first draft is
lost. -/
def Abreast (Lost : Draft → Prop) (Rel : Draft → Draft → Prop) (state other : State) : Prop :=
  Lost state.2 ∨ state.1 = other.1 ∧ Rel state.2 other.2

omit lockstep in
theorem abreast_of_follows {first second : Draft} (stage : Stage)
    (follows : Follows Lost Rel first second) :
    Abreast Lost Rel (stage, first) (stage, second) :=
  follows.imp_right fun related => ⟨rfl, related⟩

omit lockstep in
theorem goesOn_of_primaryKind? {inCall : Bool} {token kind : Kind}
    (found : primaryKind? inCall token = some kind) :
    token.endsLine = false ∧ token ≠ .leftBrace := by
  cases token <;> simp_all [primaryKind?, Kind.endsLine]

theorem abreast_primary (related : Rel draft other) :
    Abreast Lost Rel (primary draft) (primary other) := by
  have alike := lockstep.sees related
  unfold primary
  simp only [← alike.atMacroCall, ← alike.role, ← alike.peek]
  split
  · next call => exact abreast_of_follows _ (lockstep.call related call)
  · split
    · next kind found =>
        obtain ⟨goesOn, notBrace⟩ := goesOn_of_primaryKind? found
        exact .inr ⟨rfl, lockstep_single lockstep kind related goesOn notBrace⟩
    · have strayed (goesOn : draft.peek.endsLine = false) :
          Abreast Lost Rel (.operator true, primary.stray draft)
            (.operator true, primary.stray other) :=
        abreast_of_follows _ (lockstep.stray related goesOn)
      have named {kind : Kind} (stands : draft.peek = kind) (inside : kind.endsLine = false)
          (notBrace : kind ≠ .leftBrace) :
          Abreast Lost Rel (.operator true, name draft) (.operator true, name other) :=
        .inr ⟨rfl, lockstep_name lockstep related (not_atLineEnd_of_peek stands inside)
          (stands ▸ notBrace)⟩
      split
      · next ident => exact named ident rfl (by decide)
      · next colon => exact named colon rfl (by decide)
      · exact .inr ⟨rfl, lockstep.error _ related⟩
      · exact .inr ⟨rfl, lockstep.error _ related⟩
      · exact .inr ⟨rfl, lockstep.error _ related⟩
      · exact .inr ⟨rfl, lockstep.error _ related⟩
      · next brace =>
          split
          · next inCall =>
              exact abreast_of_follows _
                (lockstep.braced related brace (by simpa using inCall))
          · exact strayed (by rw [brace]; rfl)
      · next notEol notEof _ _ _ => exact strayed (endsLine_eq_false notEol notEof)

theorem abreast_callHead (related : Rel draft other) (word : draft.peek = .pseudoFnKw) :
    Abreast Lost Rel (callHead draft) (callHead other) := by
  have headed := lockstep.enterBump .call related (not_atLineEnd_of_peek word rfl)
    (by rw [word]; decide)
  unfold callHead
  simp only [← (lockstep.sees headed).peek]
  split
  · next paren =>
      have opened := lockstep.bumpKind headed paren rfl (by decide)
      simp only [← (lockstep.sees opened).peek]
      split
      · next closing =>
          exact .inr ⟨rfl, lockstep.leave _ (lockstep.bumpKind opened closing rfl (by decide))⟩
      · exact .inr ⟨rfl, opened⟩
  · exact .inr ⟨rfl, lockstep.leave _ (lockstep.error _ headed)⟩

omit lockstep in
theorem goesOn_of_prefixPower? {kind : Kind} {text : Bytes} {power : Nat}
    (found : Operator.prefixPower? kind text = some power) :
    kind.endsLine = false ∧ kind ≠ .leftBrace := by
  cases kind <;> simp_all [Operator.prefixPower?, Kind.endsLine]

omit lockstep in
theorem goesOn_of_infixPower? {kind : Kind} {text : Bytes} {power : Nat}
    (found : Operator.infixPower? kind text = some power) :
    kind.endsLine = false ∧ kind ≠ .leftBrace := by
  cases kind <;> simp_all [Operator.infixPower?, Kind.endsLine]

theorem abreast_operandStep (related : Rel draft other) :
    Abreast Lost Rel (operandStep draft) (operandStep other) := by
  have alike := lockstep.sees related
  unfold operandStep
  rw [← alike.peek, ← alike.textAt_zero]
  cases found : Operator.prefixPower? draft.peek (draft.textAt 0) with
  | some power =>
      obtain ⟨goesOn, notBrace⟩ := goesOn_of_prefixPower? found
      exact .inr ⟨rfl, lockstep.enterBump _ related goesOn notBrace⟩
  | none =>
      dsimp only
      split
      · next paren =>
          exact .inr ⟨rfl, lockstep.enterBump _ related (not_atLineEnd_of_peek paren rfl)
            (by rw [paren]; decide)⟩
      · next word => exact abreast_callHead lockstep related word
      · exact abreast_primary lockstep related

theorem abreast_closeStep (related : Rel draft other) :
    Abreast Lost Rel (closeStep draft) (closeStep other) := by
  have alike := lockstep.sees related
  have closed (kind : Kind) :
      Rel ((draft.expect .rightParen .expectedClosingParen).leave kind)
        ((other.expect .rightParen .expectedClosingParen).leave kind) :=
    lockstep.leave kind (lockstep.expect rfl (by decide) _ related)
  unfold closeStep
  simp only [← alike.role, ← alike.peek]
  split
  · exact .inr ⟨rfl, related⟩
  · exact .inr ⟨rfl, lockstep.leave _ related⟩
  · exact .inr ⟨rfl, lockstep.leave _ related⟩
  · exact .inr ⟨rfl, closed _⟩
  · split
    · next comma => exact .inr ⟨rfl, lockstep.bumpKind related comma rfl (by decide)⟩
    · exact .inr ⟨rfl, closed _⟩

theorem abreast_operatorStep (complete : Bool) (related : Rel draft other) :
    Abreast Lost Rel (operatorStep complete draft) (operatorStep complete other) := by
  have alike := lockstep.sees related
  unfold operatorStep
  rw [← alike.peek, ← alike.textAt_zero, ← alike.role]
  cases found : Operator.infixPower? draft.peek (draft.textAt 0) with
  | none => exact abreast_closeStep lockstep related
  | some power =>
      obtain ⟨goesOn, notBrace⟩ := goesOn_of_infixPower? found
      dsimp only
      split
      · exact .inr ⟨rfl, lockstep.bump (lockstep.wrap _ related) goesOn notBrace⟩
      · exact abreast_closeStep lockstep related

theorem abreast_run (fuel : Nat) {state other : State} (abreast : Abreast Lost Rel state other) :
    Abreast Lost Rel (run fuel state) (run fuel other) := by
  induction fuel generalizing state other with
  | zero => exact abreast
  | succ fuel ih =>
      obtain ⟨stage, draft⟩ := state
      obtain ⟨stage', draft'⟩ := other
      rcases abreast with lost | ⟨rfl, related⟩
      · have alone : Alike (Alone Lost) (stage, draft) (stage, draft) := ⟨rfl, rfl, lost⟩
        exact .inl (alike_run lockstep.persistent.congruence _ alone).2.2
      · cases stage with
        | operand => exact ih (abreast_operandStep lockstep related)
        | operator complete => exact ih (abreast_operatorStep lockstep complete related)
        | done => exact .inr ⟨rfl, related⟩

theorem follows_read (plain : draft.role = .plain) (related : Rel draft other) :
    Follows Lost Rel (read draft) (read other) := by
  have plain' : other.role = .plain := (lockstep.sees related).role ▸ plain
  have start : Abreast Lost Rel (.operand, draft) (.operand, other) := .inr ⟨rfl, related⟩
  have both := abreast_run lockstep (3 * (draft.rest.length + other.rest.length) + 3) start
  rw [runAlong_of_le plain (by omega), runAlong_of_le plain' (by omega)] at both
  exact both.imp_right And.right

end Expression

namespace Arguments

theorem follows_sizedExpression (plain : draft.role = .plain) (related : Rel draft other) :
    Follows Lost Rel (sizedExpression draft) (sizedExpression other) := by
  have read := Expression.follows_read lockstep plain related
  unfold sizedExpression
  generalize Expression.read draft = first at read ⊢
  generalize Expression.read other = second at read ⊢
  dsimp only
  rcases read with lost | read
  · left
    split
    · exact (lockstep.persistent.congruence.expect _ _
        ⟨rfl, lockstep.persistent.bump lost⟩).2
    · exact lost
  · rw [← (lockstep.sees read).peek]
    right
    split
    · next colon =>
        exact lockstep.expect rfl (by decide) _ (lockstep.bumpKind read colon rfl (by decide))
    · exact read

theorem follows_expressions (plain : draft.role = .plain) (related : Rel draft other) :
    Follows Lost Rel (expressions draft) (expressions other) := by
  unfold expressions
  rw [← (lockstep.sees related).atLineEnd]
  split
  · exact .inr related
  · exact lockstep.follows_separated rule_sizedExpression
      (respects_sizedExpression lockstep.persistent.congruence)
      (fun _ _ => follows_sizedExpression lockstep) plain related

theorem lockstep_sign : Respects Rel sign := by
  intro draft other related
  unfold sign
  simp only [← (lockstep.sees related).peek]
  split
  · next plus => exact lockstep.bumpKind related plus rfl (by decide)
  · next minus => exact lockstep.bumpKind related minus rfl (by decide)
  · exact related

theorem follows_words (plain : draft.role = .plain) (related : Rel draft other) :
    Follows Lost Rel (words draft) (words other) := by
  have isRule : Rule fun draft => sign (draft.expect .ident .expectedName) := fun draft _ =>
    (moves_expect .ident rfl .expectedName draft).trans (moves_sign _)
  unfold words
  rw [← (lockstep.sees related).atLineEnd]
  split
  · exact .inr related
  · refine lockstep.follows_separated isRule ?_ ?_ plain related
    · exact fun _ _ alone => respects_sign lockstep.persistent.congruence
        (lockstep.persistent.congruence.expect _ _ alone)
    · exact fun _ _ _ related => .inr
        (lockstep_sign lockstep (lockstep.expect rfl (by decide) _ related))

theorem lockstep_toggle : Respects Rel toggle := by
  intro draft other related
  unfold toggle
  rw [← (lockstep.sees related).peek]
  split
  · next ident => exact lockstep.bumpKind related ident rfl (by decide)
  · exact lockstep_sign lockstep related

theorem lockstep_parameter : Respects Rel parameter := by
  intro draft other related
  unfold parameter
  simp only [← (lockstep.sees related).peek]
  split
  · next stands => exact lockstep.bumpKind related stands rfl (by decide)
  · next stands => exact lockstep.bumpKind related stands rfl (by decide)
  · next stands => exact lockstep.bumpKind related stands rfl (by decide)
  · exact lockstep.error _ related

theorem follows_parameterList (plain : draft.role = .plain) (related : Rel draft other) :
    Follows Lost Rel (draft.separated parameter) (other.separated parameter) :=
  lockstep.follows_separated rule_parameter
    (respects_parameter lockstep.persistent.congruence)
    (fun _ _ _ related => .inr (lockstep_parameter lockstep related)) plain related

theorem follows_macroHeader (plain : draft.role = .plain) (related : Rel draft other) :
    Follows Lost Rel (macroHeader draft) (macroHeader other) := by
  unfold macroHeader
  rw [← (lockstep.sees related).peek]
  split
  · next ident =>
      have named := lockstep.bumpKind related ident rfl (by decide)
      dsimp only
      rw [← (lockstep.sees named).atLineEnd]
      split
      · exact .inr named
      · exact follows_parameterList lockstep (by rw [role_bump, plain]) named
  · exact .inr (lockstep.error _ related)

theorem follows_parameters (plain : draft.role = .plain) (related : Rel draft other)
    (paren : draft.peek = .leftParen) :
    Follows Lost Rel (parameters draft) (parameters other) := by
  have opened := lockstep.bumpKind related paren rfl (by decide)
  unfold parameters
  dsimp only
  rw [← (lockstep.sees opened).peek]
  refine lockstep.follows_expect rfl (by decide) _ ?_
  split
  · exact .inr opened
  · exact follows_parameterList lockstep (by rw [role_bump, plain]) opened

omit lockstep in
theorem peek_of_head?_any {kind : Kind} (significant : kind.isTrivia = false)
    (stands : (draft.rest.head?.any fun token => token.kind == kind) = true) :
    draft.peek = kind := by
  cases rest : draft.rest with
  | nil => simp [rest] at stands
  | cons token behind =>
      have isKind : token.kind = kind := by simpa [rest] using stands
      have notTrivia : token.isTrivia = false := by rw [Token.isTrivia, isKind, significant]
      rw [peek_of_upcoming (upcoming_of_rest rest notTrivia), isKind]

theorem follows_definition (plain : draft.role = .plain) (opened : draft.sketch.tags ≠ [])
    (related : Rel draft other) :
    Follows Lost Rel ((definition draft).leave .directive)
      ((definition other).leave .directive) := by
  unfold definition
  rw [← (lockstep.sees related).peek]
  split
  · next ident =>
      have named := lockstep.bumpKind related ident rfl (by decide)
      have plainNamed : draft.bump.role = .plain := by rw [role_bump, plain]
      have openedNamed : draft.bump.sketch.tags ≠ [] := by rwa [tags_bump]
      dsimp only
      rw [← (lockstep.sees named).head?_any]
      split
      · next paren =>
          have isParen := peek_of_head?_any rfl paren
          have alone := lockstep.persistent.congruence
          have closed : Respects (Alone Lost) fun draft => (replacement draft).leave .directive :=
            fun _ _ lost => alone.leave (by decide) (respects_replacement alone lost)
          have moves := moves_parameters plainNamed (not_atLineEnd_of_peek isParen rfl)
          exact (follows_parameters lockstep plainNamed named isParen).andThen closed
            fun read => lockstep.replacement read (by rwa [moves.tags])
      · exact lockstep.replacement named openedNamed
  · exact .inr (lockstep.leave _ (lockstep.error _ related))

theorem follows_read (shape : ArgumentShape) (plain : draft.role = .plain)
    (opened : draft.sketch.tags ≠ []) (related : Rel draft other) :
    Follows Lost Rel ((read shape draft).leave .directive)
      ((read shape other).leave .directive) := by
  cases shape with
  | none => exact .inr (lockstep.leave _ related)
  | expressions => exact lockstep.follows_leave _ (follows_expressions lockstep plain related)
  | assignment => exact lockstep.follows_leave _ (follows_expressions lockstep plain related)
  | toggle => exact .inr (lockstep.leave _ (lockstep_toggle lockstep related))
  | words => exact lockstep.follows_leave _ (follows_words lockstep plain related)
  | macroHeader => exact lockstep.follows_leave _ (follows_macroHeader lockstep plain related)
  | define => exact follows_definition lockstep plain opened related

end Arguments

namespace Operand

omit lockstep in
theorem hasSize_alike (alike : SeesAlike draft other) : hasSize draft = hasSize other := by
  unfold hasSize
  rw [← alike.peek, ← alike.textAt_zero]
  by_cases brace : draft.peek = .leftBrace
  · rw [brace]
    rfl
  · rw [alike.kindAt_one brace]

theorem lockstep_index (cause : Cause) : Respects Rel (index cause) := by
  intro draft other related
  unfold index
  rw [← (lockstep.sees related).peek]
  split
  · next comma =>
      exact lockstep.expect rfl (by decide) _ (lockstep.bumpKind related comma rfl (by decide))
  · exact related

theorem follows_index (cause : Cause) (follows : Follows Lost Rel draft other) :
    Follows Lost Rel (index cause draft) (index cause other) :=
  follows.andThen (respects_index lockstep.persistent.congruence cause)
    fun related => .inr (lockstep_index lockstep cause related)

/-- Skip the size in front of an address, if there is one. -/
theorem lockstep_size (related : Rel draft other) :
    let start := if hasSize draft then draft.bump.bump else draft
    let start' := if hasSize other then other.bump.bump else other
    Rel start start' ∧ start.role = draft.role := by
  have alike := lockstep.sees related
  dsimp only
  rw [← hasSize_alike alike]
  split
  · next sized =>
      simp only [hasSize, Bool.and_eq_true, Bool.or_eq_true, beq_iff_eq] at sized
      obtain ⟨⟨word, colon⟩, -⟩ := sized
      have goesOn : draft.atLineEnd = false := by
        rcases word with word | word <;> exact not_atLineEnd_of_peek word rfl
      have notBrace : draft.peek ≠ .leftBrace := by
        rcases word with word | word <;> rw [word] <;> decide
      have passed := lockstep.bump related goesOn notBrace
      obtain ⟨token, behind, ahead, -⟩ := upcoming_of_not_atLineEnd goesOn
      have isColon : draft.bump.peek = .colon := (kindAt_succ ahead 0).symm.trans colon
      refine ⟨lockstep.bumpKind passed isColon rfl (by decide), ?_⟩
      rw [role_bump, role_bump]
  · exact ⟨related, rfl⟩

theorem follows_address (plain : draft.role = .plain) (related : Rel draft other)
    (judged : opensIndirect draft = opensIndirect other) :
    Follows Lost Rel (address draft) (address other) := by
  obtain ⟨started, sameRole⟩ := lockstep_size lockstep related
  unfold opensIndirect at judged
  unfold address
  generalize (if hasSize draft then draft.bump.bump else draft) = start
    at started judged sameRole ⊢
  generalize (if hasSize other then other.bump.bump else other) = start' at started judged ⊢
  have startPlain : start.role = .plain := sameRole.trans plain
  dsimp only at judged ⊢
  rw [← judged]
  refine follows_index lockstep _ ?_
  split
  · next opens =>
      have paren : start.peek = .leftParen := by
        simp only [Bool.and_eq_true, decide_eq_true_eq] at opens
        exact opens.1
      have opened := lockstep.bumpKind started paren rfl (by decide)
      have openedPlain : start.bump.role = .plain := by rw [role_bump, startPlain]
      exact lockstep.follows_expect rfl (by decide) _
        (follows_index lockstep _ (Expression.follows_read lockstep openedPlain opened))
  · exact Expression.follows_read lockstep startPlain started

theorem follows_read (related : Rel draft other)
    (judged : opensIndirect (draft.enter .plain) = opensIndirect (other.enter .plain)) :
    Follows Lost Rel (read draft) (read other) := by
  unfold read
  rw [← (lockstep.sees related).atLineEnd]
  split
  · exact .inr related
  · next goesOn =>
      have entered := lockstep.enter .plain related (Bool.eq_false_iff.mpr goesOn)
      have plain := role_enter .plain draft
      have addressed :
          Follows Lost Rel (address (draft.enter .plain)) (address (other.enter .plain)) :=
        follows_address lockstep plain entered judged
      refine lockstep.follows_leave _ ?_
      simp only [← (lockstep.sees entered).peek]
      split
      · next hash =>
          exact Expression.follows_read lockstep (by rw [role_bump, plain])
            (lockstep.bumpKind entered hash rfl (by decide))
      · next register =>
          rw [← (lockstep.sees entered).kindAt_one (by rw [register]; decide)]
          split
          · exact .inr (lockstep.bumpKind entered register rfl (by decide))
          · exact addressed
      · exact addressed

end Operand

namespace Statement

variable (dialect : Dialect) (block? : Option BlockKind)

omit lockstep in
theorem directiveAt?_alike (alike : SeesAlike draft other) :
    directiveAt? dialect draft 0 = directiveAt? dialect other 0 := by
  unfold directiveAt?
  rw [← Draft.peek, ← Draft.peek, alike.peek, alike.textAt_zero]

omit lockstep in
theorem isAssignment_alike (alike : SeesAlike draft other) (notBrace : draft.peek ≠ .leftBrace) :
    isAssignment dialect draft = isAssignment dialect other := by
  unfold isAssignment directiveAt?
  rw [alike.kindAt_one notBrace, alike.textAt_one notBrace]

theorem follows_command (directive : Directive) (word : draft.peek = .directiveKw)
    (related : Rel draft other) :
    Follows Lost Rel (command directive draft) (command directive other) := by
  have begun := lockstep.enterBump .plain related (not_atLineEnd_of_peek word rfl)
    (by rw [word]; decide)
  exact Arguments.follows_read lockstep directive.arguments
    (by rw [role_bump, role_enter]) (by rw [tags_bump, tags_enter]; simp) begun

/-- A statement has been read alike, or the first draft is lost. -/
def Paced (Lost : Draft → Prop) (Rel : Draft → Draft → Prop)
    (result other : Draft × Option BlockEdge) : Prop :=
  Lost result.1 ∨ Alike Rel result other

omit lockstep in
theorem paced_of_follows (follows : Follows Lost Rel draft other) :
    Paced Lost Rel (draft, none) (other, none) :=
  follows.imp_right fun related => ⟨related, .none⟩

theorem paced_directive (related : Rel draft other) :
    Paced Lost Rel (directive dialect block? draft) (directive dialect block? other) := by
  unfold directive
  rw [← directiveAt?_alike dialect (lockstep.sees related)]
  cases found : directiveAt? dialect draft 0 with
  | none => exact paced_of_follows (lockstep.recover _ _ related)
  | some directive =>
      dsimp only
      cases misplaced? block? directive with
      | some cause => exact paced_of_follows (lockstep.recover _ _ related)
      | none =>
          have word : draft.peek = .directiveKw := kindAt_of_directiveAt? found
          refine (follows_command lockstep directive word related).imp_right
            fun read => ⟨read, ?_⟩
          cases directive.role with
          | plain => exact .none
          | opens block => exact .opens block related word
          | branch => exact .none
          | closes => exact .closes

theorem follows_instruction (word : draft.peek = .mnemonic) (related : Rel draft other) :
    Follows Lost Rel (instruction draft) (instruction other) := by
  have goesOn := not_atLineEnd_of_peek word rfl
  have begun := lockstep.enterBump .plain related goesOn (by rw [word]; decide)
  refine lockstep.follows_leave _ (Operand.follows_read lockstep begun ?_)
  have operandOf (draft : Draft) :
      ((draft.enter .plain).bump.enter .plain).upcoming = draft.bump.upcoming := by
    rw [upcoming_enter, upcoming_bump_of_upcoming (upcoming_enter .plain draft)]
  rw [Operand.opensIndirect_of_upcoming (operandOf draft),
    Operand.opensIndirect_of_upcoming (operandOf other), lockstep.indirect related word]

theorem follows_assignment (related : Rel draft other) (goesOn : draft.atLineEnd = false)
    (notBrace : draft.peek ≠ .leftBrace) (assigns : isAssignment dialect draft = true) :
    Follows Lost Rel (assignment draft) (assignment other) := by
  have begun := lockstep.enterBump .plain related goesOn notBrace
  have sign : (draft.enter .plain).bump.peek = draft.kindAt 1 := by
    obtain ⟨token, behind, ahead, -⟩ := upcoming_of_not_atLineEnd
      ((atLineEnd_enter .plain draft).trans goesOn)
    rw [← kindAt_of_upcoming (upcoming_enter .plain draft), kindAt_succ ahead 0]
    rfl
  have value : Rel (draft.enter .plain).bump.bump (other.enter .plain).bump.bump := by
    refine lockstep.bump begun ?_ ?_
    · rw [atLineEnd, sign, endsLine_kindAt_one dialect assigns]
    · rw [sign]
      intro brace
      simp [isAssignment, directiveAt?, brace] at assigns
  exact lockstep.follows_leave _ (Expression.follows_read lockstep
    (by rw [role_bump, role_bump, role_enter]) value)

omit lockstep in
theorem storage?_alike (alike : SeesAlike draft other) :
    storage? dialect draft = storage? dialect other := by
  unfold storage?
  rw [directiveAt?_alike dialect alike]

omit lockstep in
theorem peek_of_storage? {directive : Directive}
    (found : storage? dialect draft = some directive) : draft.peek = .directiveKw :=
  kindAt_of_directiveAt? (Option.filter_eq_some_iff.mp found).1

theorem follows_fieldValue (plain : draft.role = .plain) (related : Rel draft other) :
    Follows Lost Rel (fieldValue dialect draft) (fieldValue dialect other) := by
  have alike := lockstep.sees related
  unfold fieldValue
  rw [← alike.peek, ← storage?_alike dialect alike]
  split
  · next eq =>
      exact Expression.follows_read lockstep (by rw [role_bump, plain])
        (lockstep.bumpKind related eq rfl (by decide))
  · cases found : storage? dialect draft with
    | none => exact .inr related
    | some directive =>
        exact follows_command lockstep directive (peek_of_storage? dialect found) related

theorem field?_alike (related : Rel draft other) :
    (field? dialect draft = none ∧ field? dialect other = none) ∨
      ∃ after after', field? dialect draft = some after ∧
        field? dialect other = some after' ∧ Follows Lost Rel after after' := by
  have alike := lockstep.sees related
  unfold field?
  simp only [← alike.peek, ← storage?_alike dialect alike]
  split
  · next word =>
      cases storage? dialect draft with
      | none => exact .inl ⟨rfl, rfl⟩
      | some directive =>
          refine .inr ⟨_, _, rfl, rfl, lockstep.follows_leave _ ?_⟩
          refine follows_command lockstep directive ?_
            (lockstep.enter .plain related (not_atLineEnd_of_peek word rfl))
          rw [peek_enter, word]
  · next ident =>
      refine .inr ⟨_, _, rfl, rfl, lockstep.follows_leave _ ?_⟩
      exact follows_fieldValue lockstep dialect (by rw [role_bump, role_enter])
        (lockstep.enterBump .plain related (not_atLineEnd_of_peek ident rfl)
          (by rw [ident]; decide))
  · exact .inl ⟨rfl, rfl⟩

theorem paced_announced (related : Rel draft other) :
    Paced Lost Rel (announced dialect block? draft) (announced dialect block? other) := by
  unfold announced
  simp only [← (lockstep.sees related).peek]
  split
  · exact paced_directive lockstep dialect block? related
  · next word => exact paced_of_follows (follows_instruction lockstep word related)
  · exact .inr ⟨related, .none⟩

/-- A macro call takes its arguments without looking at each token, so what becomes of it
is given. -/
theorem paced_regular (related : Rel draft other)
    (call : draft.peek = .ident → isAssignment dialect draft = false →
      Follows Lost Rel (macroCall draft) (macroCall other)) :
    Paced Lost Rel (regular dialect block? draft) (regular dialect block? other) := by
  have alike := lockstep.sees related
  have assigned {kind : Kind} (stands : draft.peek = kind) (inside : kind.endsLine = false)
      (notBrace : kind ≠ .leftBrace) (assigns : isAssignment dialect draft = true) :
      Follows Lost Rel (assignment draft) (assignment other) :=
    follows_assignment lockstep dialect related (not_atLineEnd_of_peek stands inside)
      (stands ▸ notBrace) assigns
  unfold regular
  simp only [← alike.peek]
  split
  · exact .inr ⟨related, .none⟩
  · exact .inr ⟨related, .none⟩
  · exact paced_announced lockstep dialect block? related
  · exact paced_announced lockstep dialect block? related
  · next ident =>
      rw [← isAssignment_alike dialect alike (by rw [ident]; decide)]
      apply paced_of_follows
      split
      · next assigns => exact assigned ident rfl (by decide) assigns
      · next calls => exact call ident (by simpa using calls)
  · rw [← alike.textAt_zero]
    exact paced_of_follows (lockstep.recover _ _ related)
  · have recovered : Paced Lost Rel
        (announced dialect block? (draft.recover .expectedStatement startsStatement))
        (announced dialect block? (other.recover .expectedStatement startsStatement)) := by
      rcases lockstep.recover .expectedStatement startsStatement related with lost | related
      · exact .inl
          (alike_announced lockstep.persistent.congruence dialect block? ⟨rfl, lost⟩).1.2
      · exact paced_announced lockstep dialect block? related
    by_cases isLocal : draft.peek = .localIdent
    · rw [← isAssignment_alike dialect alike (by rw [isLocal]; decide)]
      split
      · next assigns =>
          simp only [Bool.and_eq_true] at assigns
          exact paced_of_follows (assigned isLocal rfl (by decide) assigns.2)
      · exact recovered
    · rw [if_neg (by simp [isLocal]), if_neg (by simp [isLocal])]
      exact recovered

/-- The statement at the head of a draft is a macro call. -/
structure CallsMacro (draft : Draft) : Prop where
  noFields : block?.any BlockKind.hasFields = false
  word : draft.peek = .ident
  noAssignment : isAssignment dialect draft = false

omit lockstep in
theorem CallsMacro.read_eq (calls : CallsMacro dialect block? draft) :
    read dialect block? draft = (macroCall draft, none) := by
  simp [read, regular, calls.noFields, calls.word, calls.noAssignment]

theorem paced_read (related : Rel draft other)
    (call : CallsMacro dialect block? draft →
      Follows Lost Rel (macroCall draft) (macroCall other)) :
    Paced Lost Rel (read dialect block? draft) (read dialect block? other) := by
  unfold read
  cases hasFields : block?.any BlockKind.hasFields with
  | false =>
      exact paced_regular lockstep dialect block? related fun word noAssignment =>
        call ⟨hasFields, word, noAssignment⟩
  | true =>
      rcases field?_alike lockstep dialect related with
        ⟨first, second⟩ | ⟨after, after', first, second, read⟩
      · simp only [if_true, first, second]
        refine paced_regular lockstep dialect block? related fun word _ => ?_
        simp [field?, word] at first
      · simp only [if_true, first, second]
        exact paced_of_follows read

end Statement

namespace Line

variable (dialect : Dialect) (block? : Option BlockKind)

theorem lockstep_labels_go (fuel : Nat) (first : Bool) : Respects Rel (labels fuel first) := by
  induction fuel generalizing first with
  | zero => exact fun _ _ related => related
  | succ fuel ih =>
      intro draft other related
      have alike := lockstep.sees related
      have two {kind : Kind} (stands : draft.peek = kind) (inside : kind.endsLine = false)
          (notBrace : kind ≠ .leftBrace) (colon : draft.kindAt 1 = .colon) :
          Rel (draft.node .label fun draft => draft.bump.bump)
            (other.node .label fun draft => draft.bump.bump) := by
        have goesOn := not_atLineEnd_of_peek stands inside
        have begun := lockstep.enterBump .plain related goesOn (stands ▸ notBrace)
        have isColon : (draft.enter .plain).bump.peek = .colon := by
          obtain ⟨token, behind, ahead, -⟩ := upcoming_of_not_atLineEnd
            ((atLineEnd_enter .plain draft).trans goesOn)
          rw [← colon, ← kindAt_of_upcoming (upcoming_enter .plain draft), kindAt_succ ahead 0]
          rfl
        exact lockstep.leave _ (lockstep.bumpKind begun isColon rfl (by decide))
      simp only [labels, ← alike.peek]
      split
      · next ident =>
          rw [← alike.kindAt_one (by rw [ident]; decide)]
          split
          · next colon => exact ih false (two ident rfl (by decide) colon)
          · exact related
      · next ident =>
          rw [← alike.kindAt_one (by rw [ident]; decide)]
          split
          · next colon => exact ih false (two ident rfl (by decide) colon)
          · exact related
      · next colon =>
          split
          · exact ih false (lockstep.leave _ (lockstep.enterBump .plain related
              (not_atLineEnd_of_peek colon rfl) (by rw [colon]; decide)))
          · exact related
      · exact related

theorem lockstep_labels {tokens others : List Token}
    (start : Rel { rest := tokens } { rest := others }) :
    Rel (labels tokens.length true { rest := tokens })
      (labels others.length true { rest := others }) := by
  have both := lockstep_labels_go lockstep (tokens.length + others.length) true start
  rwa [labels_of_le true (by simp), @labels_of_le _ true { rest := others } (by simp)] at both

theorem follows_toLineEnd (related : Rel draft other) :
    Follows Lost Rel (toLineEnd draft) (toLineEnd other) := by
  unfold toLineEnd
  rw [← (lockstep.sees related).atLineEnd]
  split
  · exact .inr related
  · exact lockstep.recover _ _ related

/-- Two lines are read in lockstep up to their ends, or the first draft is lost on the
way. -/
theorem paced_stated {tokens others : List Token}
    (start : Rel { rest := tokens } { rest := others })
    (call :
      let labelled := labels tokens.length true { rest := tokens }
      let labelled' := labels others.length true { rest := others }
      Statement.CallsMacro dialect block? labelled →
        Follows Lost Rel (Statement.macroCall labelled) (Statement.macroCall labelled')) :
    Statement.Paced Lost Rel
      (stated dialect block? tokens, (read dialect block? tokens).edge?)
      (stated dialect block? others, (read dialect block? others).edge?) := by
  have labelled := lockstep_labels lockstep start
  rcases Statement.paced_read lockstep dialect block? labelled call with lost | ⟨read, edges⟩
  · left
    change Lost (toLineEnd _)
    unfold toLineEnd
    split
    · exact lost
    · exact lockstep.persistent.recover _ _ lost
  · exact (follows_toLineEnd lockstep read).imp_right fun ended => ⟨ended, edges⟩

end Line
end Asm6502
