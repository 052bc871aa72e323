import Asm6502.Proofs.LineRules

/-!
# Loops end on their own

The loops of the grammar are given as many turns as there are tokens.  Every
turn takes a token, so the bound is never what ends a loop: with more turns it
would do the same.
-/

namespace Asm6502

/-- A loop that comes closer to its end on every turn does not depend on a bound
that is large enough. -/
theorem loop_congr {ι α β : Type} (loop : List ι → α → β) (holds : α → Prop)
    (left : α → Nat)
    (ended : ∀ bound place, holds place → left place = 0 →
      loop bound place = loop [] place)
    (turn : ∀ one other first second place, holds place →
      (∀ later, holds later → left later < left place →
        loop first later = loop second later) →
      loop (one :: first) place = loop (other :: second) place)
    (first second : List ι) (place : α) (start : holds place)
    (firstEnough : left place ≤ first.length)
    (secondEnough : left place ≤ second.length) :
    loop first place = loop second place := by
  induction first generalizing second place with
  | nil =>
      have none := Nat.le_zero.mp firstEnough
      rw [ended second place start none]
  | cons one first ih =>
      cases second with
      | nil =>
          have none := Nat.le_zero.mp secondEnough
          rw [ended _ place start none]
      | cons other second =>
          apply turn _ _ _ _ _ start
          intro later laterHolds closer
          simp only [List.length_cons] at firstEnough secondEnough
          exact ih _ _ laterHolds (by omega) (by omega)

namespace Draft

theorem peek_of_length_rest_eq_zero {draft : Draft} (exhausted : draft.rest.length = 0) :
    draft.peek = .eof := by
  rw [peek_eq, upcoming, List.eq_nil_of_length_eq_zero exhausted]
  rfl

theorem takeTokens_of_le {σ : Type} (next : σ → Kind → Option σ)
    {bound : List Token} (state : σ) {draft : Draft}
    (enough : draft.rest.length ≤ bound.length) :
    takeTokens.go next bound state draft = draft.takeTokens next state := by
  refine loop_congr (fun bound place => takeTokens.go next bound place.1 place.2)
    (fun _ => True) (fun place => place.2.rest.length) ?_ ?_
    bound draft.rest (state, draft) trivial enough (Nat.le_refl _)
  · intro bound place _ exhausted
    cases bound with
    | nil => rfl
    | cons token bound =>
        simp [takeTokens.go, atLineEnd, peek_of_length_rest_eq_zero exhausted,
          Kind.endsLine]
  · intro one other first second place _ ih
    simp only [takeTokens.go]
    split
    · rfl
    · next goesOn =>
        split
        · rfl
        · next state _ =>
            exact ih (state, place.2.bump) trivial
              (length_rest_bump (Bool.eq_false_iff.mpr goesOn))

theorem separated_of_le {item : Draft → Draft} (isRule : Rule item)
    {bound : List Token} {draft : Draft} (plain : draft.role = .plain)
    (enough : draft.rest.length ≤ bound.length) :
    separated.go item bound draft = draft.separated item := by
  refine loop_congr (separated.go item) (fun draft => draft.role = .plain)
    (fun draft => draft.rest.length) ?_ ?_ bound draft.rest draft plain enough
    (Nat.le_refl _)
  · intro bound draft plain exhausted
    have stillExhausted : (item draft).rest.length = 0 := by
      have notMore := (isRule draft plain).length_rest_le
      omega
    cases bound with
    | nil => rfl
    | cons token bound =>
        simp only [separated.go, peek_of_length_rest_eq_zero stillExhausted]
        rfl
  · intro one other first second draft plain ih
    simp only [separated.go]
    split
    · next comma =>
        have itemMoves := isRule draft plain
        have commaMoves := moves_bump_of_peek comma rfl
        have notMore := itemMoves.length_rest_le
        have fewer := length_rest_bump (not_atLineEnd_of_peek comma rfl)
        exact ih _ (by rw [commaMoves.role, itemMoves.role, plain]) (by omega)
    · rfl

end Draft

open Draft

theorem Expression.scopes_of_le {bound : List Token} {draft : Draft}
    (enough : draft.rest.length ≤ bound.length) :
    scopes bound draft = scopes draft.rest draft := by
  refine loop_congr scopes (fun _ => True) (fun draft => draft.rest.length) ?_ ?_
    bound draft.rest draft trivial enough (Nat.le_refl _)
  · intro bound draft _ exhausted
    cases bound with
    | nil => rfl
    | cons token bound =>
        simp only [scopes, peek_of_length_rest_eq_zero exhausted]
        rfl
  · intro one other first second draft _ ih
    simp only [scopes]
    split
    · next scope =>
        split
        · next ident =>
            have fewer := length_rest_bump (not_atLineEnd_of_peek scope rfl)
            have evenFewer := length_rest_bump (not_atLineEnd_of_peek ident rfl)
            rw [ih _ trivial (by omega)]
        · rfl
    · rfl

theorem Expression.runAlong_of_le {fuel : Nat} {draft : Draft}
    (plain : draft.role = .plain) (enough : 3 * draft.rest.length + 3 ≤ fuel) :
    run fuel (.operand, draft) = (.done, read draft) := by
  obtain ⟨more, rfl⟩ := Nat.exists_eq_add_of_le enough
  have ended : runAlong draft.rest (.operand, draft) = (.done, read draft) :=
    Prod.ext (runAlong_done plain) rfl
  rw [run_add, ← runAlong_eq_run, ended, run_done]

namespace Line

theorem length_rest_label {rule : Draft → Draft} {draft : Draft}
    (goesOn : draft.atLineEnd = false)
    (takes : ∀ inner, (rule inner).rest.length ≤ inner.bump.rest.length) :
    (draft.node .label rule).rest.length < draft.rest.length := by
  have entered : (draft.enter .plain).atLineEnd = false := by
    rw [atLineEnd_enter, goesOn]
  have fewer := length_rest_bump entered
  have notMore := length_rest_enter_le .plain draft
  have taken := takes (draft.enter .plain)
  change (rule (draft.enter .plain)).rest.length < _
  omega

theorem labels_of_le {fuel : Nat} (first : Bool) {draft : Draft}
    (enough : draft.rest.length ≤ fuel) :
    labels fuel first draft = labels draft.rest.length first draft := by
  have same := loop_congr (fun bound place => labels bound.length place.1 place.2)
    (fun _ => True) (fun place => place.2.rest.length) ?_ ?_
    (List.replicate fuel ()) (List.replicate draft.rest.length ()) (first, draft)
    trivial (by simpa using enough) (by simp)
  · simpa using same
  · intro bound place _ exhausted
    cases bound with
    | nil => rfl
    | cons token bound =>
        simp [labels, peek_of_length_rest_eq_zero exhausted]
  · intro one other first second place _ ih
    simp only [List.length_cons, labels]
    split
    · next stands =>
        split
        · exact ih (false, _) trivial
            (length_rest_label (not_atLineEnd_of_peek stands rfl)
              fun inner => length_rest_bump_le inner.bump)
        · rfl
    · next stands =>
        split
        · exact ih (false, _) trivial
            (length_rest_label (not_atLineEnd_of_peek stands rfl)
              fun inner => length_rest_bump_le inner.bump)
        · rfl
    · next stands =>
        split
        · exact ih (false, _) trivial
            (length_rest_label (not_atLineEnd_of_peek stands rfl)
              fun _ => Nat.le_refl _)
        · rfl
    · rfl

end Line

/-- With more turns no loop of the grammar would do anything else, whatever it
has in front of it. -/
structure Draft.LoopsEnd (draft : Draft) : Prop where
  labels :
    ∀ fuel first, draft.rest.length ≤ fuel →
      Line.labels fuel first draft = Line.labels draft.rest.length first draft
  takeTokens :
    ∀ (σ : Type) (next : σ → Kind → Option σ) (bound : List Token) (state : σ),
      draft.rest.length ≤ bound.length →
        takeTokens.go next bound state draft = draft.takeTokens next state
  separated :
    ∀ (item : Draft → Draft) (bound : List Token), Rule item →
      draft.rest.length ≤ bound.length →
        separated.go item bound draft = draft.separated item
  scopes :
    ∀ bound : List Token, draft.rest.length ≤ bound.length →
      Expression.scopes bound draft = Expression.scopes draft.rest draft
  expression :
    ∀ fuel, 3 * draft.rest.length + 3 ≤ fuel →
      Expression.run fuel (.operand, draft) = (.done, Expression.read draft)

theorem Draft.loopsEnd {draft : Draft} (plain : draft.role = .plain) :
    draft.LoopsEnd where
  labels _ first enough := Line.labels_of_le first enough
  takeTokens _ next _ state enough := takeTokens_of_le next state enough
  separated _ _ isRule enough := separated_of_le isRule plain enough
  scopes _ enough := Expression.scopes_of_le enough
  expression _ enough := Expression.runAlong_of_le plain enough

end Asm6502
