import Asm6502.Line.Statement
import Asm6502.Proofs.DraftCongruence
import Asm6502.Proofs.LoopBounds

/-!
# Drafts in lockstep

A congruence relates drafts whose rests agree to the end of the line.  A lockstep asks
for less: the rests only agree in what the grammar looks at before it takes a token,
and the relation may break when a rule takes more than single tokens.  From then on
nothing is said about the second draft any more; what is known is that the first one
is lost, and stays so.
-/

namespace Asm6502
namespace Draft

theorem peek_enter (role : Role) (draft : Draft) : (draft.enter role).peek = draft.peek :=
  kindAt_of_upcoming (upcoming_enter role draft) 0

/-- Whatever the grammar does with a draft, the property stays with it. -/
structure Persistent (Lost : Draft → Prop) : Prop where
  takeTrivia {draft : Draft} : Lost draft → Lost draft.takeTrivia
  bump {draft : Draft} : Lost draft → Lost draft.bump
  enter {draft : Draft} (role : Role) : Lost draft → Lost (draft.enter role)
  wrap {draft : Draft} (role : Role) : Lost draft → Lost (draft.wrap role)
  leave {draft : Draft} (kind : Kind) : Lost draft → Lost (draft.leave kind)
  errorAt {draft : Draft} (cause : Cause) (span : Span) :
    Lost draft → Lost (draft.errorAt cause span)

/-- A draft beside itself, as long as it has the property. -/
def Alone (Lost : Draft → Prop) (draft other : Draft) : Prop :=
  draft = other ∧ Lost draft

namespace Persistent

variable {Lost : Draft → Prop} (persistent : Persistent Lost) {draft : Draft}
include persistent

theorem takeTokens_go {σ : Type} (next : σ → Kind → Option σ) (tokens : List Token)
    (state : σ) (lost : Lost draft) : Lost (takeTokens.go next tokens state draft).2 := by
  induction tokens generalizing state draft with
  | nil => exact lost
  | cons token tokens ih =>
      unfold takeTokens.go
      split
      · exact lost
      · split
        · exact lost
        · exact ih _ (persistent.bump lost)

theorem recover (cause : Cause) (stop : Kind → Bool) (lost : Lost draft) :
    Lost (draft.recover cause stop) := by
  unfold Draft.recover
  split
  · exact persistent.errorAt _ _ lost
  · exact persistent.errorAt _ _ (persistent.leave _
      (persistent.takeTokens_go _ _ _ (persistent.bump (persistent.enter _ lost))))

theorem stray (lost : Lost draft) : Lost (Expression.primary.stray draft) :=
  persistent.leave _ (persistent.bump (persistent.errorAt _ _ (persistent.enter _ lost)))

/-- What stays with a draft under the operations of the grammar stays with it under
every rule. -/
theorem congruence : Congruence (Alone Lost) where
  looksLike := by
    rintro draft _ ⟨rfl, -⟩
    exact ⟨List.forall₂_same.mpr fun _ _ => ⟨rfl, fun _ => rfl⟩, rfl⟩
  takeTrivia := by
    rintro draft _ ⟨rfl, lost⟩
    exact ⟨rfl, persistent.takeTrivia lost⟩
  bump := by
    rintro draft _ ⟨rfl, lost⟩
    exact ⟨rfl, persistent.bump lost⟩
  enter := by
    rintro draft _ role ⟨rfl, lost⟩
    exact ⟨rfl, persistent.enter role lost⟩
  wrap := by
    rintro draft _ role ⟨rfl, lost⟩
    exact ⟨rfl, persistent.wrap role lost⟩
  leave := by
    rintro draft _ kind - ⟨rfl, lost⟩
    exact ⟨rfl, persistent.leave kind lost⟩
  error := by
    rintro draft _ cause ⟨rfl, lost⟩
    exact ⟨rfl, persistent.errorAt cause _ lost⟩
  recover := by
    rintro draft _ cause stop ⟨rfl, lost⟩
    exact ⟨rfl, persistent.recover cause stop lost⟩
  recoverWord := by
    rintro draft _ stop ⟨rfl, lost⟩ -
    exact ⟨rfl, persistent.recover _ stop lost⟩
  stray := by
    rintro draft _ ⟨rfl, lost⟩ -
    exact ⟨rfl, persistent.stray lost⟩

end Persistent

/-- What the grammar looks at before it takes a token is the same in two drafts.  It
never looks behind an opening brace. -/
structure SeesAlike (draft other : Draft) : Prop where
  role : draft.role = other.role
  first : draft.tokenAt? 0 = other.tokenAt? 0
  second : draft.peek ≠ .leftBrace → draft.tokenAt? 1 = other.tokenAt? 1
  atMacroCall : Expression.atMacroCall draft = Expression.atMacroCall other
  head : draft.rest.head?.map Token.kind = other.rest.head?.map Token.kind

namespace SeesAlike

variable {draft other : Draft} (alike : SeesAlike draft other)
include alike

theorem peek : draft.peek = other.peek := by
  rw [Draft.peek, Draft.peek, kindAt, kindAt, alike.first]

theorem textAt_zero : draft.textAt 0 = other.textAt 0 := by
  rw [textAt, textAt, alike.first]

theorem atLineEnd : draft.atLineEnd = other.atLineEnd := by
  rw [Draft.atLineEnd, Draft.atLineEnd, alike.peek]

theorem kindAt_one (notBrace : draft.peek ≠ .leftBrace) : draft.kindAt 1 = other.kindAt 1 := by
  rw [kindAt, kindAt, alike.second notBrace]

theorem textAt_one (notBrace : draft.peek ≠ .leftBrace) : draft.textAt 1 = other.textAt 1 := by
  rw [textAt, textAt, alike.second notBrace]

theorem head?_any (kind : Kind) :
    (draft.rest.head?.any fun token => token.kind == kind) =
      other.rest.head?.any fun token => token.kind == kind := by
  have heads := congrArg (·.any (· == kind)) alike.head
  simpa only [Option.any_map] using heads

end SeesAlike

/-- The single operations of the grammar keep a relation between drafts that the grammar
sees alike, as long as they stand neither at an opening brace nor at the line's end. -/
structure Lockstep (Lost : Draft → Prop) (Rel : Draft → Draft → Prop) : Prop where
  persistent : Persistent Lost
  sees {draft other : Draft} : Rel draft other → SeesAlike draft other
  bump {draft other : Draft} :
    Rel draft other → draft.atLineEnd = false → draft.peek ≠ .leftBrace →
      Rel draft.bump other.bump
  enter {draft other : Draft} (role : Role) :
    Rel draft other → draft.atLineEnd = false → Rel (draft.enter role) (other.enter role)
  wrap {draft other : Draft} (role : Role) :
    Rel draft other → Rel (draft.wrap role) (other.wrap role)
  leave {draft other : Draft} (kind : Kind) :
    Rel draft other → Rel (draft.leave kind) (other.leave kind)
  error {draft other : Draft} (cause : Cause) :
    Rel draft other → Rel (draft.error cause) (other.error cause)

/-- The first draft is lost, or the two are still related. -/
def Follows (Lost : Draft → Prop) (Rel : Draft → Draft → Prop) (draft other : Draft) : Prop :=
  Lost draft ∨ Rel draft other

theorem Follows.andThen {Lost : Draft → Prop} {Rel : Draft → Draft → Prop}
    {draft other : Draft} {rule : Draft → Draft} (follows : Follows Lost Rel draft other)
    (stays : Respects (Alone Lost) rule)
    (onward : Rel draft other → Follows Lost Rel (rule draft) (rule other)) :
    Follows Lost Rel (rule draft) (rule other) :=
  follows.elim (fun lost => .inl (stays ⟨rfl, lost⟩).2) onward

namespace Lockstep

variable {Lost : Draft → Prop} {Rel : Draft → Draft → Prop} (lockstep : Lockstep Lost Rel)
  {draft other : Draft}
include lockstep

theorem follows_leave (kind : Kind) (follows : Follows Lost Rel draft other) :
    Follows Lost Rel (draft.leave kind) (other.leave kind) :=
  follows.imp (lockstep.persistent.leave kind) (lockstep.leave kind)

theorem bumpKind (related : Rel draft other) {kind : Kind} (stands : draft.peek = kind)
    (inside : kind.endsLine = false) (notBrace : kind ≠ .leftBrace) :
    Rel draft.bump other.bump :=
  lockstep.bump related (not_atLineEnd_of_peek stands inside) (stands ▸ notBrace)

theorem enterBump (role : Role) (related : Rel draft other) (goesOn : draft.atLineEnd = false)
    (notBrace : draft.peek ≠ .leftBrace) :
    Rel (draft.enter role).bump (other.enter role).bump :=
  lockstep.bump (lockstep.enter role related goesOn) (by rw [atLineEnd_enter, goesOn])
    (by rw [peek_enter]; exact notBrace)

theorem expect {kind : Kind} (inside : kind.endsLine = false) (notBrace : kind ≠ .leftBrace)
    (cause : Cause) : Respects Rel (expect kind cause) := by
  intro draft other related
  unfold Draft.expect
  rw [← (lockstep.sees related).peek]
  split
  · next stands => exact lockstep.bumpKind related stands inside notBrace
  · exact lockstep.error cause related

theorem follows_expect {kind : Kind} (inside : kind.endsLine = false)
    (notBrace : kind ≠ .leftBrace) (cause : Cause) (follows : Follows Lost Rel draft other) :
    Follows Lost Rel (draft.expect kind cause) (other.expect kind cause) :=
  follows.andThen (lockstep.persistent.congruence.expect kind cause)
    fun related => .inr (lockstep.expect inside notBrace cause related)

section Separated

variable {item : Draft → Draft} (isRule : Rule item) (stays : Respects (Alone Lost) item)
  (follows : ∀ ⦃draft other : Draft⦄, draft.role = .plain → Rel draft other →
    Follows Lost Rel (item draft) (item other))
include isRule stays follows

theorem follows_separated_go (tokens : List Token) (plain : draft.role = .plain)
    (related : Rel draft other) :
    Follows Lost Rel (separated.go item tokens draft) (separated.go item tokens other) := by
  induction tokens generalizing draft other with
  | nil => exact follows plain related
  | cons token tokens ih =>
      simp only [separated.go]
      rcases follows plain related with lost | related'
      · left
        split
        · exact (lockstep.persistent.congruence.separated_go stays rfl
            ⟨rfl, lockstep.persistent.bump lost⟩).2
        · exact lost
      · rw [← (lockstep.sees related').peek]
        split
        · next comma =>
            refine ih ?_ (lockstep.bumpKind related' comma rfl (by decide))
            rw [(moves_bump_of_peek comma rfl).role, (isRule draft plain).role, plain]
        · exact .inr related'

/-- The turns of a loop are counted by tokens to come, of which there need not be as many
in both drafts; the greater number does for both. -/
theorem follows_separated (plain : draft.role = .plain) (related : Rel draft other) :
    Follows Lost Rel (draft.separated item) (other.separated item) := by
  have plain' : other.role = .plain := (lockstep.sees related).role ▸ plain
  have both := lockstep.follows_separated_go isRule stays follows (draft.rest ++ other.rest)
    plain related
  rwa [separated_of_le isRule plain (by simp), separated_of_le isRule plain' (by simp)] at both

end Separated
end Lockstep

/-- A lockstep in which any token of the line may be taken, and what has been taken may
be reported. -/
structure FreeLockstep (Lost : Draft → Prop) (Rel : Draft → Draft → Prop) : Prop
    extends Lockstep Lost Rel where
  take {draft other : Draft} :
    Rel draft other → draft.atLineEnd = false → Follows Lost Rel draft.bump other.bump
  flag {draft other later later' : Draft} (cause : Cause) :
    Rel draft other → Rel later later' →
      Rel (later.errorAt cause ⟨draft.nextStart, later.lastEnd⟩)
        (later'.errorAt cause ⟨other.nextStart, later'.lastEnd⟩)

namespace FreeLockstep

variable {Lost : Draft → Prop} {Rel : Draft → Draft → Prop} (free : FreeLockstep Lost Rel)
  {draft other : Draft}
include free

section TakeTokens

variable {σ : Type} (next : σ → Kind → Option σ)

theorem takeTokens_go (tokens : List Token) (state : σ) (related : Rel draft other) :
    Lost (takeTokens.go next tokens state draft).2 ∨
      (takeTokens.go next tokens state draft).1 = (takeTokens.go next tokens state other).1 ∧
        Rel (takeTokens.go next tokens state draft).2
          (takeTokens.go next tokens state other).2 := by
  induction tokens generalizing state draft other with
  | nil => exact .inr ⟨rfl, related⟩
  | cons token tokens ih =>
      have alike := free.sees related
      unfold takeTokens.go
      rw [← alike.atLineEnd, ← alike.peek]
      split
      · exact .inr ⟨rfl, related⟩
      · next goesOn =>
          cases next state draft.peek with
          | none => exact .inr ⟨rfl, related⟩
          | some state =>
              rcases free.take related (Bool.eq_false_iff.mpr goesOn) with lost | related
              · exact .inl (free.persistent.takeTokens_go next tokens state lost)
              · exact ih state related

theorem takeTokens (state : σ) (related : Rel draft other) :
    Lost (draft.takeTokens next state).2 ∨
      (draft.takeTokens next state).1 = (other.takeTokens next state).1 ∧
        Rel (draft.takeTokens next state).2 (other.takeTokens next state).2 := by
  have both := free.takeTokens_go next (draft.rest ++ other.rest) state related
  rwa [takeTokens_of_le next state (by simp), takeTokens_of_le next state (by simp)] at both

theorem follows_takeTokens (state : σ) (related : Rel draft other) :
    Follows Lost Rel (draft.takeTokens next state).2 (other.takeTokens next state).2 :=
  (free.takeTokens next state related).imp_right And.right

end TakeTokens

theorem follows_takeUntil (stop : Kind → Bool) (related : Rel draft other) :
    Follows Lost Rel (draft.takeUntil stop) (other.takeUntil stop) :=
  free.follows_takeTokens _ _ related

theorem follows_skip (stop : Kind → Bool) (related : Rel draft other)
    (goesOn : draft.atLineEnd = false) :
    Follows Lost Rel (draft.skip stop) (other.skip stop) := by
  have first := free.take (free.enter .plain related goesOn) (by rw [atLineEnd_enter, goesOn])
  refine free.follows_leave .errorNode (first.andThen ?_ (free.follows_takeUntil stop))
  exact free.persistent.congruence.takeUntil stop

theorem follows_recover (cause : Cause) (stop : Kind → Bool) (related : Rel draft other) :
    Follows Lost Rel (draft.recover cause stop) (other.recover cause stop) := by
  have sameEnd := (free.sees related).atLineEnd
  cases ended : draft.atLineEnd with
  | true =>
      rw [recover, recover, if_pos ended, if_pos (sameEnd ▸ ended)]
      exact .inr (free.error cause related)
  | false =>
      rw [recover_of_not_atLineEnd ended, recover_of_not_atLineEnd (sameEnd ▸ ended)]
      exact (free.follows_skip stop related ended).imp (free.persistent.errorAt _ _)
        (free.flag cause related)

theorem follows_stray (related : Rel draft other) (goesOn : draft.atLineEnd = false) :
    Follows Lost Rel (Expression.primary.stray draft) (Expression.primary.stray other) := by
  have faulty := free.error .expectedExpression (free.enter .plain related goesOn)
  refine free.follows_leave .errorNode (free.take faulty ?_)
  exact (atLineEnd_enter .plain draft).trans goesOn

theorem follows_braced (related : Rel draft other) (goesOn : draft.atLineEnd = false) :
    Follows Lost Rel (Expression.braced draft) (Expression.braced other) := by
  have opened := free.take (free.enter .plain related goesOn) (by rw [atLineEnd_enter, goesOn])
  refine free.follows_leave .macroArg ?_
  dsimp only
  rcases opened with lost | opened
  · left
    have taken := free.persistent.takeTokens_go Expression.braced.step
      (draft.enter .plain).bump.rest 1 lost
    split
    · exact taken
    · exact free.persistent.errorAt _ _ taken
  · rcases free.takeTokens Expression.braced.step 1 opened with lost | ⟨sameDepth, taken⟩
    · left
      split
      · exact lost
      · exact free.persistent.errorAt _ _ lost
    · rw [← sameDepth]
      split
      · exact .inr taken
      · exact .inr (free.error _ taken)

theorem follows_rawArgument (related : Rel draft other) (goesOn : draft.atLineEnd = false) :
    Follows Lost Rel (Expression.rawArgument draft) (Expression.rawArgument other) :=
  free.follows_leave .macroArg
    (free.follows_takeTokens _ _ (free.enter .plain related goesOn))

end FreeLockstep
end Draft
end Asm6502
