import Asm6502.Proofs.DraftRules
import Asm6502.Line.Expression
import Asm6502.Text.Utf8
import Mathlib.Data.List.Forall2

/-!
# Drafts that the grammar takes for alike

The grammar looks at the kinds of tokens, at words without regard to letter case, and
at what the innermost open node waits for.  A congruence is a relation between drafts
that look alike in this way which the few operations of the grammar keep.  Whatever is
composed of these operations then keeps it too, so two runs of a rule are compared,
or one run is followed, by saying what the operations do.
-/

namespace Asm6502

open List (Forall₂)

/-- The grammar takes the tokens for the same: their kinds agree, and so do their words
up to letter case unless they are trivia. -/
structure Token.ReadsLike (token other : Token) : Prop where
  kind : token.kind = other.kind
  word : token.isTrivia = false → Bytes.lower token.text = Bytes.lower other.text

namespace Token

variable {tokens others : List Token}

theorem ReadsLike.isTrivia {token other : Token} (alike : token.ReadsLike other) :
    token.isTrivia = other.isTrivia := by
  rw [Token.isTrivia, Token.isTrivia, alike.kind]

theorem map_kind_of_forall₂ (alike : Forall₂ ReadsLike tokens others) :
    tokens.map kind = others.map kind := by
  induction alike with
  | nil => rfl
  | cons first _ ih => rw [List.map_cons, List.map_cons, first.kind, ih]

theorem forall₂_dropWhile_isTrivia {Same : Token → Token → Prop}
    (reads : ∀ ⦃token other : Token⦄, Same token other → token.ReadsLike other)
    (alike : Forall₂ Same tokens others) :
    Forall₂ Same (tokens.dropWhile isTrivia) (others.dropWhile isTrivia) := by
  induction alike with
  | nil => exact .nil
  | cons first rest ih =>
      rw [List.dropWhile_cons, List.dropWhile_cons, (reads first).isTrivia]
      split
      · exact ih
      · exact .cons first rest

theorem forall₂_significant (alike : Forall₂ ReadsLike tokens others) :
    Forall₂ ReadsLike (tokens.filter fun token => !token.isTrivia)
      (others.filter fun token => !token.isTrivia) := by
  induction alike with
  | nil => exact .nil
  | cons first rest ih =>
      rw [List.filter_cons, List.filter_cons, first.isTrivia]
      split
      · exact .cons first ih
      · exact ih

theorem significantAt?_of_forall₂ (alike : Forall₂ ReadsLike tokens others) (index : Nat) :
    (significantAt? index tokens).map (fun token => (token.kind, Bytes.lower token.text)) =
      (significantAt? index others).map fun token =>
        (token.kind, Bytes.lower token.text) := by
  induction alike generalizing index with
  | nil => rfl
  | @cons token other _ _ first rest ih =>
      simp only [significantAt?, first.isTrivia]
      cases isTrivia : other.isTrivia with
      | true => exact ih index
      | false =>
          have word := first.word (first.isTrivia.trans isTrivia)
          cases index with
          | zero => simp [first.kind, word]
          | succ index => simpa using ih index

end Token

namespace Draft

/-- What the grammar can see of two drafts is the same. -/
structure LooksLike (draft other : Draft) : Prop where
  rest : Forall₂ Token.ReadsLike draft.rest other.rest
  role : draft.role = other.role

namespace LooksLike

variable {draft other : Draft} (alike : LooksLike draft other)
include alike

theorem kindAt (index : Nat) : draft.kindAt index = other.kindAt index := by
  have same := congrArg (Option.map Prod.fst) (Token.significantAt?_of_forall₂ alike.rest index)
  rw [Option.map_map, Option.map_map] at same
  exact congrArg (·.getD .eof) same

theorem lower_textAt (index : Nat) :
    Bytes.lower (draft.textAt index) = Bytes.lower (other.textAt index) := by
  have same := congrArg (Option.map Prod.snd) (Token.significantAt?_of_forall₂ alike.rest index)
  rw [Option.map_map, Option.map_map] at same
  have words (draft : Draft) : Bytes.lower (draft.textAt index) =
      ((draft.tokenAt? index).map fun token => Bytes.lower token.text).getD [] := by
    rw [textAt]
    cases draft.tokenAt? index <;> rfl
  rw [words, words]
  exact congrArg (·.getD []) same

theorem peek : draft.peek = other.peek :=
  alike.kindAt 0

theorem atLineEnd : draft.atLineEnd = other.atLineEnd := by
  rw [Draft.atLineEnd, Draft.atLineEnd, alike.peek]

theorem upcoming : Forall₂ Token.ReadsLike draft.upcoming other.upcoming :=
  Token.forall₂_dropWhile_isTrivia (fun _ _ same => same) alike.rest

theorem map_kind_significant :
    draft.significant.map Token.kind = other.significant.map Token.kind :=
  Token.map_kind_of_forall₂ (Token.forall₂_significant alike.rest)

theorem length_rest : draft.rest.length = other.rest.length :=
  alike.rest.length_eq

theorem head?_any (kind : Kind) :
    (draft.rest.head?.any fun token => token.kind == kind) =
      other.rest.head?.any fun token => token.kind == kind := by
  have kinds := Token.map_kind_of_forall₂ alike.rest
  have heads := congrArg (fun kinds => kinds.head?.any (· == kind)) kinds
  simpa only [List.head?_map, Option.any_map] using heads

theorem atMacroCall : Expression.atMacroCall draft = Expression.atMacroCall other := by
  have ahead := alike.upcoming
  unfold Expression.atMacroCall
  generalize draft.upcoming = tokens at ahead
  generalize other.upcoming = others at ahead
  cases ahead with
  | nil => rfl
  | cons first rest =>
      cases rest with
      | nil => rfl
      | cons second _ => simp only [first.kind, second.kind]

theorem prefixPower? :
    Operator.prefixPower? draft.peek (draft.textAt 0) =
      Operator.prefixPower? other.peek (other.textAt 0) := by
  unfold Operator.prefixPower?
  rw [alike.peek, alike.lower_textAt]

theorem infixPower? :
    Operator.infixPower? draft.peek (draft.textAt 0) =
      Operator.infixPower? other.peek (other.textAt 0) := by
  unfold Operator.infixPower?
  rw [alike.peek, alike.lower_textAt]

end LooksLike

/-- A rule leaves related drafts behind if it starts from related ones. -/
def Respects (Rel : Draft → Draft → Prop) (rule : Draft → Draft) : Prop :=
  ∀ ⦃draft other : Draft⦄, Rel draft other → Rel (rule draft) (rule other)

section TakeTokens

variable {Rel : Draft → Draft → Prop}
  (looksLike : ∀ ⦃draft other : Draft⦄, Rel draft other → LooksLike draft other)
  (bump : Respects Rel bump) {draft other : Draft}
include looksLike bump

theorem takeTokens_go_congr {σ : Type} (next : σ → Kind → Option σ) {tokens others : List Token}
    (sameLength : tokens.length = others.length) (state : σ) (related : Rel draft other) :
    (takeTokens.go next tokens state draft).1 = (takeTokens.go next others state other).1 ∧
      Rel (takeTokens.go next tokens state draft).2
        (takeTokens.go next others state other).2 := by
  induction tokens generalizing others state draft other with
  | nil =>
      obtain rfl := List.eq_nil_of_length_eq_zero sameLength.symm
      exact ⟨rfl, related⟩
  | cons token tokens ih =>
      cases others with
      | nil => contradiction
      | cons first others =>
          have alike := looksLike related
          unfold takeTokens.go
          rw [alike.atLineEnd, alike.peek]
          split
          · exact ⟨rfl, related⟩
          · cases next state other.peek with
            | none => exact ⟨rfl, related⟩
            | some state => exact ih (Nat.succ.inj sameLength) state (bump related)

theorem takeTokens_congr {σ : Type} (next : σ → Kind → Option σ) (state : σ)
    (related : Rel draft other) :
    (draft.takeTokens next state).1 = (other.takeTokens next state).1 ∧
      Rel (draft.takeTokens next state).2 (other.takeTokens next state).2 :=
  takeTokens_go_congr looksLike bump next (looksLike related).length_rest state related

theorem respects_takeUntil (stop : Kind → Bool) : Respects Rel (takeUntil stop) :=
  fun _ _ related => (takeTokens_congr looksLike bump _ _ related).2

end TakeTokens

/-- The operations of the grammar keep a relation between drafts that look alike.
Nodes of errors are only made by recovery and around a single stray token. -/
structure Congruence (Rel : Draft → Draft → Prop) : Prop where
  looksLike {draft other : Draft} : Rel draft other → LooksLike draft other
  takeTrivia {draft other : Draft} : Rel draft other → Rel draft.takeTrivia other.takeTrivia
  bump {draft other : Draft} : Rel draft other → Rel draft.bump other.bump
  enter {draft other : Draft} (role : Role) :
    Rel draft other → Rel (draft.enter role) (other.enter role)
  wrap {draft other : Draft} (role : Role) :
    Rel draft other → Rel (draft.wrap role) (other.wrap role)
  leave {draft other : Draft} {kind : Kind} :
    kind ≠ .errorNode → Rel draft other → Rel (draft.leave kind) (other.leave kind)
  error {draft other : Draft} (cause : Cause) :
    Rel draft other → Rel (draft.error cause) (other.error cause)
  recover {draft other : Draft} (cause : Cause) (stop : Kind → Bool) :
    Rel draft other → Rel (draft.recover cause stop) (other.recover cause stop)
  recoverWord {draft other : Draft} (stop : Kind → Bool) :
    Rel draft other → draft.peek = .dotIdent →
      Rel (draft.recover (.unknownDirective (Utf8.decode (draft.textAt 0))) stop)
        (other.recover (.unknownDirective (Utf8.decode (other.textAt 0))) stop)
  stray {draft other : Draft} :
    Rel draft other → draft.atLineEnd = false →
      Rel (Expression.primary.stray draft) (Expression.primary.stray other)

namespace Congruence

variable {Rel : Draft → Draft → Prop} (congruence : Congruence Rel) {draft other : Draft}
include congruence

theorem expect (kind : Kind) (cause : Cause) : Respects Rel (expect kind cause) := by
  intro draft other related
  unfold Draft.expect
  rw [(congruence.looksLike related).peek]
  split
  · exact congruence.bump related
  · exact congruence.error cause related

theorem node {kind : Kind} (notError : kind ≠ .errorNode) {rule : Draft → Draft}
    (respects : Respects Rel rule) : Respects Rel (node kind rule) :=
  fun _ _ related => congruence.leave notError (respects (congruence.enter .plain related))

theorem takeTokens {σ : Type} (next : σ → Kind → Option σ) (state : σ)
    (related : Rel draft other) :
    (draft.takeTokens next state).1 = (other.takeTokens next state).1 ∧
      Rel (draft.takeTokens next state).2 (other.takeTokens next state).2 :=
  takeTokens_congr (fun _ _ => congruence.looksLike) (fun _ _ => congruence.bump) next state
    related

theorem takeUntil (stop : Kind → Bool) : Respects Rel (takeUntil stop) :=
  respects_takeUntil (fun _ _ => congruence.looksLike) (fun _ _ => congruence.bump) stop

theorem separated_go {item : Draft → Draft} (respects : Respects Rel item)
    {tokens others : List Token} (sameLength : tokens.length = others.length)
    (related : Rel draft other) :
    Rel (separated.go item tokens draft) (separated.go item others other) := by
  induction tokens generalizing others draft other with
  | nil =>
      obtain rfl := List.eq_nil_of_length_eq_zero sameLength.symm
      exact respects related
  | cons token tokens ih =>
      cases others with
      | nil => contradiction
      | cons first others =>
          have read := respects related
          simp only [separated.go]
          rw [(congruence.looksLike read).peek]
          split
          · exact ih (Nat.succ.inj sameLength) (congruence.bump read)
          · exact read

theorem separated {item : Draft → Draft} (respects : Respects Rel item) :
    Respects Rel (separated item) :=
  fun _ _ related =>
    congruence.separated_go respects (congruence.looksLike related).length_rest related

end Congruence
end Draft
end Asm6502
