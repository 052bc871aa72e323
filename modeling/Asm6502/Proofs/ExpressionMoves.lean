import Asm6502.Line.Expression
import Asm6502.Proofs.DraftRules

/-!
# The expression machine makes moves

While the machine runs, the nodes it has opened are pending: each of them will
become a move once it is closed.  Every step takes tokens or closes a node, so
the machine stops within the steps it is given, and what it has done by then is
a move.
-/

namespace Asm6502
namespace Expression

open Draft

theorem draws_single {kind : Kind} (isInline : kind.IsInline) {draft : Draft}
    (goesOn : draft.atLineEnd = false) : Draws true draft (single kind draft) := by
  apply draws_node isInline
  intro inner _ ahead
  exact takes_bump (by rw [atLineEnd_of_upcoming ahead, goesOn])

theorem moves_scopes (tokens : List Token) (draft : Draft) :
    Moves draft (scopes tokens draft).2 := by
  induction tokens generalizing draft with
  | nil => exact .stay draft
  | cons token tokens ih =>
      simp only [scopes]
      split
      · next scope =>
          have scopeMoves := moves_bump_of_peek scope rfl
          split
          · next ident =>
              exact scopeMoves.trans ((moves_bump_of_peek ident rfl).trans (ih _))
          · exact scopeMoves.trans (.error _ _)
      · exact .stay draft

theorem draws_name {draft : Draft} (goesOn : draft.atLineEnd = false) :
    Draws true draft (name draft) := by
  have entered : (draft.enter .plain).atLineEnd = false := by
    rw [atLineEnd_enter, goesOn]
  unfold name
  simp only
  split
  · have rooted := (takes_bump entered).trans
      (moves_expect .ident rfl .expectedName _)
    exact Takes.enter (by split <;> decide) (rooted.trans (moves_scopes _ _))
  · exact Takes.enter (by split <;> decide) ((takes_bump entered).trans (moves_scopes _ _))

theorem moves_rawArgument (draft : Draft) : Moves draft (rawArgument draft) := by
  apply moves_node (by decide)
  intro inner _ _
  exact moves_takeTokens _ _ inner

theorem upcoming_of_atMacroCall {draft : Draft} (call : atMacroCall draft = true) :
    ∃ first second behind, draft.upcoming = first :: second :: behind ∧
      first.kind = .ident ∧ second.kind = .leftParen := by
  unfold atMacroCall at call
  split at call
  · next first second behind ahead =>
      have kinds : first.kind = .ident ∧ second.kind = .leftParen := by
        simpa using call
      exact ⟨first, second, behind, ahead, kinds⟩
  · contradiction

theorem rule_argument :
    Rule fun draft =>
      match draft.peek with
      | .comma | .rightParen | .eol | .eof => draft
      | _ => rawArgument draft := by
  intro draft _
  dsimp only
  split
  · exact .stay draft
  · exact .stay draft
  · exact .stay draft
  · exact .stay draft
  · exact moves_rawArgument draft

theorem draws_macroCall {draft : Draft} (call : atMacroCall draft = true) :
    Draws true draft (macroCall draft) := by
  obtain ⟨first, second, behind, ahead, isIdent, isParen⟩ := upcoming_of_atMacroCall call
  apply draws_node (by decide)
  intro inner plain sameAhead
  rw [ahead] at sameAhead
  have identNext : inner.peek = .ident := by
    rw [peek_of_upcoming sameAhead, isIdent]
  have nameTakes := takes_bump (not_atLineEnd_of_peek identNext rfl)
  have parenAhead : inner.bump.upcoming = second :: behind := by
    apply upcoming_of_rest
    · rw [bump_of_upcoming sameAhead]
    · rw [Token.isTrivia, isParen]
      rfl
  have parenNext : inner.bump.peek = .leftParen := by
    rw [peek_of_upcoming parenAhead, isParen]
  have headTakes := nameTakes.trans (moves_bump_of_peek parenNext rfl)
  have argumentsMove := moves_separated rule_argument inner.bump.bump
    (by rw [headTakes.moves.role, plain])
  exact headTakes.trans (argumentsMove.trans (moves_expect _ rfl _ _))

theorem draws_braced {draft : Draft} (goesOn : draft.atLineEnd = false) :
    Draws true draft (braced draft) := by
  apply draws_node (by decide)
  intro inner _ ahead
  have first : Takes inner inner.bump :=
    takes_bump (by rw [atLineEnd_of_upcoming ahead, goesOn])
  have taken := first.trans (moves_takeTokens braced.step 1 inner.bump)
  dsimp only
  split
  · exact taken
  · exact taken.trans (.error _ _)

theorem draws_stray {draft : Draft} (goesOn : draft.atLineEnd = false) :
    Draws true draft (primary.stray draft) := by
  apply draws_node (by decide)
  intro inner _ ahead
  have further : (inner.error .expectedExpression).atLineEnd = false := by
    change inner.atLineEnd = false
    rw [atLineEnd_of_upcoming ahead, goesOn]
  exact ⟨(Moves.error _ _).trans (.bump further), length_rest_bump further⟩

theorem primaryKind?_eq_some {inCall : Bool} {kind node : Kind}
    (found : primaryKind? inCall kind = some node) :
    kind.endsLine = false ∧ node.IsInline := by
  unfold primaryKind? at found
  split at found
  · cases found; exact ⟨rfl, by decide⟩
  · cases found; exact ⟨rfl, by decide⟩
  · cases found; exact ⟨rfl, by decide⟩
  · cases found; exact ⟨rfl, by decide⟩
  · cases found; exact ⟨rfl, by decide⟩
  · cases found; exact ⟨rfl, by decide⟩
  · cases found; exact ⟨rfl, by decide⟩
  · split at found <;> cases found
    exact ⟨rfl, by decide⟩
  · split at found <;> cases found
    exact ⟨rfl, by decide⟩
  · contradiction

/-- An operand without prefix operators is a filled node, or only a fault is reported.
The machine goes on to look for an operator. -/
theorem draws_primary (draft : Draft) :
    ∃ complete after, primary draft = (.operator complete, after) ∧
      Draws complete draft after := by
  unfold primary
  simp only
  split
  · next call => exact ⟨_, _, rfl, draws_macroCall call⟩
  · split
    · next kind found =>
        obtain ⟨inside, isInline⟩ := primaryKind?_eq_some found
        exact ⟨_, _, rfl, draws_single isInline (not_atLineEnd_of_peek rfl inside)⟩
    · split
      · next stands => exact ⟨_, _, rfl, draws_name (not_atLineEnd_of_peek stands rfl)⟩
      · next stands => exact ⟨_, _, rfl, draws_name (not_atLineEnd_of_peek stands rfl)⟩
      · exact ⟨_, _, rfl, .error _ _⟩
      · exact ⟨_, _, rfl, .error _ _⟩
      · exact ⟨_, _, rfl, .error _ _⟩
      · exact ⟨_, _, rfl, .error _ _⟩
      · next stands =>
          have goesOn := not_atLineEnd_of_peek stands rfl
          split
          · exact ⟨_, _, rfl, draws_braced goesOn⟩
          · exact ⟨_, _, rfl, draws_stray goesOn⟩
      · next notEol notEof _ _ _ =>
          have goesOn : draft.atLineEnd = false :=
            endsLine_eq_false (by assumption) (by assumption)
          exact ⟨_, _, rfl, draws_stray goesOn⟩

/-- A draft inside nodes that the machine has opened since `base`, given by
their roles, innermost first.  The flag tells that at last a node has been closed
with tokens in it. -/
inductive Pending (base : Draft) : (filled : Bool) → List Role → Draft → Prop
  | settled {filled : Bool} {draft : Draft} :
      Draws filled base draft → Pending base filled [] draft
  | entered {before filled : Bool} {role : Role} {roles : List Role} {outer draft : Draft} :
      role ≠ .plain → Pending base before roles outer → Draws filled (outer.enter role) draft →
        draft.rest.length < (outer.enter role).rest.length →
          Pending base filled (role :: roles) draft
  | wrapped {filled : Bool} {role : Role} {roles : List Role} {outer draft : Draft} :
      role ≠ .plain → Pending base true roles outer → Draws filled (outer.wrap role) draft →
        Pending base filled (role :: roles) draft

variable {base draft : Draft} {filled : Bool} {roles : List Role}

theorem Pending.draws {further : Bool} {after : Draft} (pending : Pending base filled roles draft)
    (draws : Draws further draft after) : Pending base further roles after := by
  cases pending with
  | settled before => exact .settled (before.trans draws)
  | entered special outer inner fewer =>
      refine .entered special outer (inner.trans draws) ?_
      exact Nat.lt_of_le_of_lt (Moves.length_rest_le ⟨_, draws⟩) fewer
  | wrapped special outer inner => exact .wrapped special outer (inner.trans draws)

/-- A node around the last one that has been filled is filled itself. -/
theorem Pending.wrap {inside : Bool} {role : Role} {kind : Kind} {inner : Draft}
    (pending : Pending base true roles draft) (isInline : kind.IsInline)
    (draws : Draws inside (draft.wrap role) inner) :
    Pending base true roles (inner.leave kind) := by
  have moves : Moves (draft.wrap role) inner := ⟨_, draws⟩
  have notMore : inner.rest.length ≤ draft.rest.length := moves.length_rest_le
  cases pending with
  | settled operand => exact .settled (.wrap isInline operand draws)
  | entered special outer operand fewer =>
      exact .entered special outer (.wrap isInline operand draws)
        (Nat.lt_of_le_of_lt notMore fewer)
  | wrapped special outer operand => exact .wrapped special outer (.wrap isInline operand draws)

/-- Closing the innermost pending node completes a move of its outside.  The node is
filled: it holds the token it was opened at, or its left operand. -/
theorem Pending.close {role : Role} {after : Draft} {kind : Kind}
    (pending : Pending base filled (role :: roles) draft) (moves : Moves draft after)
    (isInline : kind.IsInline) : Pending base true roles (after.leave kind) := by
  obtain ⟨_, draws⟩ := moves
  cases pending.draws draws with
  | entered _ outer inner fewer => exact outer.draws (.enter isInline inner fun _ => fewer)
  | wrapped _ outer inner => exact outer.wrap isInline inner

theorem Pending.role_cons {role : Role}
    (pending : Pending base filled (role :: roles) draft) :
    draft.role = role ∧ role ≠ .plain := by
  cases pending with
  | entered special _ inner _ =>
      rw [Moves.role ⟨_, inner⟩, role_enter]
      exact ⟨rfl, special⟩
  | wrapped special _ inner =>
      rw [Moves.role ⟨_, inner⟩, role_eq, Draft.wrap, Sketch.tags_wrap]
      exact ⟨rfl, special⟩

theorem Pending.role_nil (pending : Pending base filled [] draft) :
    draft.role = base.role := by
  cases pending with
  | settled draws => exact Moves.role ⟨_, draws⟩

/-- How far a stage is from the machine's end. -/
def Stage.distance : Stage → Nat
  | .operand => 2
  | .operator _ => 1
  | .done => 0

/-- A bound for the steps to come: a token can open a node, which is closed
later. -/
def weight (roles : List Role) (state : State) : Nat :=
  3 * state.2.rest.length + roles.length + state.1.distance

/-- The machine is at work inside pending nodes; it only stops outside of all
of them.  Behind an operand, a node has been filled. -/
structure Working (base : Draft) (filled : Bool) (roles : List Role) (state : State) :
    Prop where
  pending : Pending base filled roles state.2
  complete : state.1 = .operator true → filled = true
  stopped : state.1 = .done → roles = []

/-- A step leads from one working state to another and brings the end
closer. -/
def Advances (base : Draft) (roles : List Role) (before after : State) : Prop :=
  ∃ filled rolesAfter, Working base filled rolesAfter after ∧
    weight rolesAfter after < weight roles before

theorem advances_of_draws {complete : Bool} {after : Draft}
    (pending : Pending base filled roles draft) (draws : Draws complete draft after) :
    Advances base roles (.operand, draft) (.operator complete, after) := by
  refine ⟨complete, roles, ⟨pending.draws draws, by simp, by simp⟩, ?_⟩
  have fewer := Moves.length_rest_le ⟨_, draws⟩
  simp only [weight, Stage.distance]
  omega

theorem advances_of_opened {before : Stage} {role : Role} {after : Draft}
    (running : before ≠ .done) (pending : Pending base filled (role :: roles) after)
    (taken : after.rest.length < draft.rest.length) :
    Advances base roles (before, draft) (.operand, after) := by
  refine ⟨filled, role :: roles, ⟨pending, by simp, by simp⟩, ?_⟩
  have positive : 0 < before.distance := by
    cases before with
    | operand | operator => simp [Stage.distance]
    | done => contradiction
  simp only [weight, Stage.distance, List.length_cons] at positive ⊢
  omega

theorem advances_of_closed {role : Role} {after : Draft} {kind : Kind}
    (complete : Bool) (pending : Pending base filled (role :: roles) draft)
    (moves : Moves draft after) (isInline : kind.IsInline) :
    Advances base (role :: roles) (.operator complete, draft)
      (.operator true, after.leave kind) := by
  refine ⟨true, roles, ⟨pending.close moves isInline, by simp, by simp⟩, ?_⟩
  have fewer := moves.length_rest_le
  simp only [weight, Stage.distance, List.length_cons, leave]
  omega

theorem prefixPower?_eq_some {kind : Kind} {text : Bytes} {power : Nat}
    (found : Operator.prefixPower? kind text = some power) :
    kind.endsLine = false := by
  unfold Operator.prefixPower? at found
  split at found <;> first | rfl | contradiction

theorem infixPower?_eq_some {kind : Kind} {text : Bytes} {power : Nat}
    (found : Operator.infixPower? kind text = some power) :
    kind.endsLine = false := by
  unfold Operator.infixPower? at found
  split at found <;> first | rfl | contradiction

theorem advances_of_entered {role : Role} (special : role ≠ .plain)
    (pending : Pending base filled roles draft) (goesOn : draft.atLineEnd = false) :
    Advances base roles (.operand, draft) (.operand, (draft.enter role).bump) := by
  have entered : (draft.enter role).atLineEnd = false := by
    rw [atLineEnd_enter, goesOn]
  have fewer := length_rest_bump entered
  apply advances_of_opened (by simp) (.entered special pending (.bump entered) fewer)
  exact Nat.lt_of_lt_of_le fewer (length_rest_enter_le role draft)

theorem advances_callHead (pending : Pending base filled roles draft)
    (goesOn : draft.atLineEnd = false) :
    Advances base roles (.operand, draft) (callHead draft) := by
  have entered : (draft.enter .call).atLineEnd = false := by
    rw [atLineEnd_enter, goesOn]
  have nameTakes := takes_bump entered
  unfold callHead
  simp only
  split
  · next paren =>
      have headTakes := nameTakes.trans (moves_bump_of_peek paren rfl)
      split
      · next closing =>
          exact advances_of_draws pending
            (Takes.enter (by decide) (headTakes.trans (moves_bump_of_peek closing rfl)))
      · obtain ⟨⟨_, draws⟩, fewer⟩ := headTakes
        apply advances_of_opened (by simp) (.entered (by simp) pending draws fewer)
        exact Nat.lt_of_lt_of_le fewer (length_rest_enter_le .call draft)
  · exact advances_of_draws pending
      (Takes.enter (by decide) (nameTakes.trans (.error _ _)))

theorem advances_operandStep (pending : Pending base filled roles draft) :
    Advances base roles (.operand, draft) (operandStep draft) := by
  unfold operandStep
  split
  · next power found =>
      exact advances_of_entered (by simp) pending
        (not_atLineEnd_of_peek rfl (prefixPower?_eq_some found))
  · split
    · next stands =>
        exact advances_of_entered (by simp) pending (not_atLineEnd_of_peek stands rfl)
    · next stands => exact advances_callHead pending (not_atLineEnd_of_peek stands rfl)
    · obtain ⟨complete, after, read, draws⟩ := draws_primary draft
      rw [read]
      exact advances_of_draws pending draws

theorem advances_closeStep (plain : base.role = .plain) (complete : Bool)
    (pending : Pending base filled roles draft) :
    Advances base roles (.operator complete, draft) (closeStep draft) := by
  unfold closeStep
  cases roles with
  | nil =>
      rw [pending.role_nil, plain]
      exact ⟨filled, [], ⟨pending, by simp, fun _ => rfl⟩, by simp [weight, Stage.distance]⟩
  | cons role roles =>
      obtain ⟨roleEq, special⟩ := pending.role_cons
      rw [roleEq]
      cases role with
      | plain => contradiction
      | unary power => exact advances_of_closed complete pending (.stay _) (by decide)
      | binary power => exact advances_of_closed complete pending (.stay _) (by decide)
      | paren =>
          exact advances_of_closed complete pending (moves_expect _ rfl _ _) (by decide)
      | call =>
          simp only
          split
          · next comma =>
              have goesOn := not_atLineEnd_of_peek comma rfl
              refine ⟨false, .call :: roles,
                ⟨pending.draws (.bump goesOn), by simp, by simp⟩, ?_⟩
              have fewer := length_rest_bump goesOn
              simp only [weight, Stage.distance]
              omega
          · exact advances_of_closed complete pending (moves_expect _ rfl _ _) (by decide)

theorem advances_operatorStep (plain : base.role = .plain) (complete : Bool)
    (pending : Pending base filled roles draft) (behind : complete = true → filled = true) :
    Advances base roles (.operator complete, draft) (operatorStep complete draft) := by
  unfold operatorStep
  split
  · next power found =>
      split
      · next binds =>
          obtain rfl := behind (by simp_all)
          have goesOn : (draft.wrap (.binary power)).atLineEnd = false :=
            not_atLineEnd_of_peek rfl (infixPower?_eq_some found)
          apply advances_of_opened (by simp) (.wrapped (by simp) pending (.bump goesOn))
          exact length_rest_bump goesOn
      · exact advances_closeStep plain complete pending
  · exact advances_closeStep plain complete pending

/-- Every step brings the machine closer to its end. -/
theorem advances_step (plain : base.role = .plain) {state next : State}
    (working : Working base filled roles state) (stepped : step state = some next) :
    Advances base roles state next := by
  obtain ⟨stage, draft⟩ := state
  cases stage with
  | operand =>
      cases stepped
      exact advances_operandStep working.pending
  | operator complete =>
      cases stepped
      exact advances_operatorStep plain complete working.pending
        fun isComplete => working.complete (by rw [isComplete])
  | done => contradiction

theorem step_eq_none_iff {state : State} : step state = none ↔ state.1 = .done := by
  obtain ⟨stage, draft⟩ := state
  cases stage <;> simp [step]

/-- With as many steps as its weight asks for, the machine stops, and all it has
done is a move. -/
theorem run_of_weight_le (plain : base.role = .plain) {fuel : Nat} {state : State}
    (working : Working base filled roles state) (enough : weight roles state ≤ fuel) :
    (run fuel state).1 = .done ∧ Moves base (run fuel state).2 := by
  have ending {state : State} {filled : Bool} {roles : List Role} (ended : state.1 = .done)
      (working : Working base filled roles state) : Moves base state.2 := by
    obtain rfl := working.stopped ended
    cases working.pending with
    | settled draws => exact ⟨_, draws⟩
  induction fuel generalizing state filled roles with
  | zero =>
      have ended : state.1 = .done := by
        obtain ⟨stage, draft⟩ := state
        cases stage with
        | operand | operator => simp [weight, Stage.distance] at enough
        | done => rfl
      exact ⟨ended, ending ended working⟩
  | succ fuel ih =>
      cases stepped : step state with
      | none =>
          have ended := step_eq_none_iff.mp stepped
          rw [run, stepped]
          exact ⟨ended, ending ended working⟩
      | some next =>
          obtain ⟨_, rolesAfter, workingAfter, closer⟩ := advances_step plain working stepped
          rw [run, stepped]
          exact ih workingAfter (by omega)

theorem runAlong_rest (plain : draft.role = .plain) :
    (runAlong draft.rest (.operand, draft)).1 = .done ∧ Moves draft (read draft) := by
  have working : Working draft false [] (.operand, draft) :=
    ⟨.settled (.stay draft), by simp, fun _ => rfl⟩
  rw [read, runAlong_eq_run]
  apply run_of_weight_le plain working
  simp [weight, Stage.distance]

/-- The machine never runs out of steps. -/
theorem runAlong_done (plain : draft.role = .plain) :
    (runAlong draft.rest (.operand, draft)).1 = .done :=
  (runAlong_rest plain).1

theorem rule_read : Rule read :=
  fun _ plain => (runAlong_rest plain).2

end Expression
end Asm6502
