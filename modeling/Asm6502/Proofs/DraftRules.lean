import Asm6502.Proofs.DraftMoves

/-!
# Rules made of moves

The ways in which the grammar puts rules together: building a node, expecting a
token, taking tokens while they are wanted, recovering from a fault, and items
between commas.  Each of them makes moves out of moves.
-/

namespace Asm6502
namespace Draft

theorem role_enter (role : Role) (draft : Draft) :
    (draft.enter role).role = role := by
  rw [role_eq, tags_enter]
  rfl

theorem moves_bump_of_peek {draft : Draft} {kind : Kind}
    (stands : draft.peek = kind) (inside : kind.endsLine = false) :
    Moves draft draft.bump :=
  .bump (not_atLineEnd_of_peek stands inside)

/-- A move that takes a token. -/
structure Takes (before after : Draft) : Prop where
  moves : Moves before after
  fewer : after.rest.length < before.rest.length

theorem takes_bump {draft : Draft} (goesOn : draft.atLineEnd = false) :
    Takes draft draft.bump :=
  ⟨.bump goesOn, length_rest_bump goesOn⟩

theorem Takes.trans {first second third : Draft} (takes : Takes first second)
    (moves : Moves second third) : Takes first third :=
  ⟨takes.moves.trans moves, Nat.lt_of_le_of_lt moves.length_rest_le takes.fewer⟩

theorem Takes.enter {role : Role} {kind : Kind} {draft inner : Draft}
    (isInline : kind.IsInline) (takes : Takes (draft.enter role) inner) :
    Draws true draft (inner.leave kind) := by
  obtain ⟨⟨_, draws⟩, fewer⟩ := takes
  exact .enter isInline draws fun _ => fewer

/-- Two significant tokens inside the line can be taken. -/
theorem moves_bump_bump {draft : Draft} (goesOn : draft.atLineEnd = false)
    (nextInside : (draft.kindAt 1).endsLine = false) :
    Moves draft draft.bump.bump := by
  obtain ⟨token, behind, ahead, -⟩ := upcoming_of_not_atLineEnd goesOn
  refine (Moves.bump goesOn).trans (.bump ?_)
  rwa [kindAt_succ ahead 0] at nextInside

theorem Moves.andThen {before after : Draft} (moves : Moves before after)
    (plain : before.role = .plain) {rule : Draft → Draft} (isRule : Rule rule) :
    Moves before (rule after) :=
  moves.trans (isRule after (by rw [moves.role, plain]))

theorem moves_expect (kind : Kind) (inside : kind.endsLine = false)
    (cause : Cause) (draft : Draft) : Moves draft (draft.expect kind cause) := by
  unfold expect
  split
  · next stands => exact moves_bump_of_peek stands inside
  · exact .error cause draft

section TakeTokens

variable {σ : Type} (next : σ → Kind → Option σ)

theorem moves_takeTokens_go (tokens : List Token) (state : σ) (draft : Draft) :
    Moves draft (takeTokens.go next tokens state draft).2 := by
  induction tokens generalizing state draft with
  | nil => exact .stay draft
  | cons token tokens ih =>
      unfold takeTokens.go
      split
      · exact .stay draft
      · next goesOn =>
          split
          · exact .stay draft
          · next state' _ =>
              exact (Moves.bump (by simpa using goesOn)).trans (ih state' draft.bump)

theorem moves_takeTokens (state : σ) (draft : Draft) :
    Moves draft (draft.takeTokens next state).2 :=
  moves_takeTokens_go next draft.rest state draft

theorem atLineEnd_takeTokens_go (wanted : ∀ state kind, (next state kind).isSome)
    (tokens : List Token) (state : σ) (draft : Draft)
    (enough : draft.rest.length ≤ tokens.length) :
    (takeTokens.go next tokens state draft).2.atLineEnd = true := by
  induction tokens generalizing state draft with
  | nil =>
      have exhausted : draft.rest = [] := List.length_eq_zero_iff.mp (by simpa using enough)
      rw [takeTokens.go, atLineEnd, peek_eq, upcoming, exhausted]
      rfl
  | cons token tokens ih =>
      unfold takeTokens.go
      split
      · next ended => exact ended
      · next goesOn =>
          have goesOn : draft.atLineEnd = false := by simpa using goesOn
          obtain ⟨state', accepted⟩ :=
            Option.isSome_iff_exists.mp (wanted state draft.peek)
          rw [accepted]
          apply ih
          have fewer := length_rest_bump goesOn
          simp only [List.length_cons] at enough
          omega

end TakeTokens

theorem moves_takeUntil (stop : Kind → Bool) (draft : Draft) :
    Moves draft (draft.takeUntil stop) :=
  moves_takeTokens _ _ draft

theorem atLineEnd_takeUntil (draft : Draft) :
    (draft.takeUntil fun _ => false).atLineEnd = true :=
  atLineEnd_takeTokens_go _ (fun _ _ => rfl) _ _ draft (Nat.le_refl _)

theorem atLineEnd_of_upcoming {draft other : Draft}
    (same : draft.upcoming = other.upcoming) :
    draft.atLineEnd = other.atLineEnd := by
  rw [atLineEnd, atLineEnd, peek, peek, kindAt_of_upcoming same]

theorem upcoming_enter (role : Role) (draft : Draft) :
    (draft.enter role).upcoming = draft.upcoming := by
  change draft.upcoming.dropWhile Token.isTrivia = draft.upcoming
  unfold upcoming
  induction draft.rest with
  | nil => rfl
  | cons token rest ih =>
      by_cases isTrivia : token.isTrivia
      · simpa [isTrivia] using ih
      · simp [isTrivia]

theorem atLineEnd_enter (role : Role) (draft : Draft) :
    (draft.enter role).atLineEnd = draft.atLineEnd :=
  atLineEnd_of_upcoming (upcoming_enter role draft)

/-- A rule that takes a token where the node starts fills the node. -/
theorem draws_node {kind : Kind} (isInline : kind.IsInline) {rule : Draft → Draft}
    {draft : Draft}
    (inside : ∀ inner : Draft, inner.role = .plain →
      inner.upcoming = draft.upcoming → Takes inner (rule inner)) :
    Draws true draft (draft.node kind rule) :=
  Takes.enter isInline (inside _ (role_enter .plain draft) (upcoming_enter .plain draft))

theorem moves_node {kind : Kind} (isInline : kind.IsInline) {rule : Draft → Draft}
    {draft : Draft}
    (inside : ∀ inner : Draft, inner.role = .plain →
      inner.upcoming = draft.upcoming → Moves inner (rule inner)) :
    Moves draft (draft.node kind rule) :=
  .enter isInline (inside _ (role_enter .plain draft) (upcoming_enter .plain draft))

theorem lastEnd_bump {draft : Draft} (goesOn : draft.atLineEnd = false) :
    draft.bump.lastEnd = draft.bump.offset := by
  obtain ⟨token, behind, ahead, -⟩ := upcoming_of_not_atLineEnd goesOn
  rw [bump_of_upcoming ahead]

/-- The error node that recovery makes: at least one token. -/
def skip (stop : Kind → Bool) (draft : Draft) : Draft :=
  draft.node .errorNode fun draft => draft.bump.takeUntil stop

theorem recover_of_not_atLineEnd {draft : Draft}
    (goesOn : draft.atLineEnd = false) (cause : Cause) (stop : Kind → Bool) :
    draft.recover cause stop =
      (draft.skip stop).errorAt cause
        ⟨draft.nextStart, (draft.skip stop).lastEnd⟩ := by
  simp [recover, goesOn, skip]

theorem moves_skip (stop : Kind → Bool) {draft : Draft}
    (goesOn : draft.atLineEnd = false) : Moves draft (draft.skip stop) := by
  apply moves_node (by decide)
  intro inner _ ahead
  refine .trans (.bump ?_) (moves_takeUntil stop _)
  rw [atLineEnd_of_upcoming ahead, goesOn]

/-- What recovery skips starts at the next significant token and ends with the
last one that was taken. -/
theorem lastEnd_skip (stop : Kind → Bool) {draft : Draft}
    (goesOn : draft.atLineEnd = false) :
    draft.nextStart ≤ (draft.skip stop).lastEnd ∧
      (draft.skip stop).lastEnd ≤ (draft.skip stop).offset := by
  have entered : (draft.enter .plain).atLineEnd = false := by
    rw [atLineEnd_enter, goesOn]
  have taken := lastEnd_bump entered
  have behind := (Moves.bump entered).offset_le
  have later := (moves_takeUntil stop (draft.enter .plain).bump).lastEnd
    (Nat.le_of_eq taken)
  rw [taken] at later
  exact ⟨Nat.le_trans behind later.1, later.2⟩

theorem moves_recover (cause : Cause) (stop : Kind → Bool) (draft : Draft) :
    Moves draft (draft.recover cause stop) := by
  cases ended : draft.atLineEnd with
  | true =>
      rw [recover, if_pos ended]
      exact .error cause draft
  | false =>
      have bounds := lastEnd_skip stop ended
      rw [recover_of_not_atLineEnd ended]
      exact (moves_skip stop ended).trans (.errorAt cause bounds.1 bounds.2)

theorem atLineEnd_recover (cause : Cause) (draft : Draft) :
    (draft.recover cause fun _ => false).atLineEnd = true := by
  cases ended : draft.atLineEnd with
  | true =>
      rw [recover, if_pos ended]
      exact ended
  | false =>
      rw [recover_of_not_atLineEnd ended]
      exact atLineEnd_takeUntil (draft.enter .plain).bump

theorem moves_separated_go {item : Draft → Draft} (isRule : Rule item)
    (tokens : List Token) : Rule (separated.go item tokens) := by
  induction tokens with
  | nil => exact isRule
  | cons token tokens ih =>
      intro draft plain
      have itemMoves := isRule draft plain
      simp only [separated.go]
      split
      · next comma =>
          have commaMoves := moves_bump_of_peek comma rfl
          refine itemMoves.trans (commaMoves.trans (ih _ ?_))
          rw [commaMoves.role, itemMoves.role, plain]
      · exact itemMoves

theorem moves_separated {item : Draft → Draft} (isRule : Rule item) :
    Rule (separated item) :=
  fun draft plain => moves_separated_go isRule draft.rest draft plain

end Draft
end Asm6502
