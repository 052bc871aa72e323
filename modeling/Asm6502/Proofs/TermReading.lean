import Asm6502.Proofs.ExpressionWriting
import Asm6502.Proofs.LoopBounds
import Asm6502.Proofs.Terms

/-!
# Printed terms are read

The machine that reads expressions, started in front of a printed term, comes to stand
behind it with the tree of the term.  What is open around the term must not hold on
tighter than the term itself, and what follows must not take a part of it.
-/

namespace Asm6502
namespace Expression

open Draft Written Term

/-- From one state the machine gets to the other. -/
def Reaches (first second : State) : Prop :=
  ∃ count, run count first = second

theorem Reaches.trans {first second third : State} (reaches : Reaches first second)
    (next : Reaches second third) : Reaches first third := by
  obtain ⟨count, rfl⟩ := reaches
  obtain ⟨more, rfl⟩ := next
  exact ⟨count + more, run_add count more first⟩

theorem reaches_of_step {first second : State} (stepped : step first = some second) :
    Reaches first second :=
  ⟨1, by simp [run, stepped]⟩

theorem reaches_of_operandStep {draft : Draft} {state : State}
    (stepped : operandStep draft = state) : Reaches (.operand, draft) state :=
  reaches_of_step (congrArg some stepped)

theorem reaches_of_operatorStep {draft : Draft} {complete : Bool} {state : State}
    (stepped : operatorStep complete draft = state) :
    Reaches (.operator complete, draft) state :=
  reaches_of_step (congrArg some stepped)

theorem read_eq_of_reaches {draft after : Draft} (plain : draft.role = .plain)
    (reaches : Reaches (.operand, draft) (.done, after)) : read draft = after := by
  obtain ⟨count, reached⟩ := reaches
  have bound : run (count + (3 * draft.rest.length + 3)) (.operand, draft) =
      (.done, read draft) := runAlong_of_le plain (Nat.le_add_left _ _)
  rw [run_add, reached, run_done] at bound
  exact (Prod.mk.inj bound).2.symm

/-- Behind a term nothing stands, or a space and a token that does not continue a
name. -/
inductive Follows : List Token → Prop
  | nil : Follows []
  | token {token : Token} {behind : List Token} :
      token.isTrivia = false → token.kind ≠ .colon2 →
        Follows (Token.space :: token :: behind)

/-- The power of an operator that stands next. -/
def powerAhead? (rest : List Token) : Option Nat :=
  (rest.dropWhile Token.isTrivia).head?.bind fun token =>
    Operator.infixPower? token.kind token.text

variable {dialect : Dialect} {draft after : Draft} {token : Token} {rest behind : List Token}

theorem nextPower?_eq_powerAhead? (draft : Draft) :
    nextPower? draft = powerAhead? draft.rest := by
  rw [nextPower?, powerAhead?, peek_eq, textAt, tokenAt?_zero, upcoming]
  cases (draft.rest.dropWhile Token.isTrivia).head? <;> rfl

theorem powerAhead?_space (significant : token.isTrivia = false) :
    powerAhead? (Token.space :: token :: behind) =
      Operator.infixPower? token.kind token.text := by
  have blank : Token.space.isTrivia = true := rfl
  rw [powerAhead?, List.dropWhile_cons, if_pos blank, List.dropWhile_cons, significant]
  rfl

theorem powerAhead?_bound {power : Nat} (found : powerAhead? rest = some power) :
    power < Operator.tightPower := by
  obtain ⟨token, -, isOperator⟩ := Option.bind_eq_some_iff.mp found
  exact (infixPower?_bounds isOperator).2

theorem ahead_of_space (rest : draft.rest = Token.space :: token :: behind)
    (significant : token.isTrivia = false) :
    draft.trivia = [Token.space] ∧ draft.upcoming = token :: behind := by
  have blank : Token.space.isTrivia = true := rfl
  constructor
  · rw [trivia, rest, List.takeWhile_cons, if_pos blank, List.takeWhile_cons, significant]
    rfl
  · rw [upcoming, rest, List.dropWhile_cons, if_pos blank, List.dropWhile_cons, significant]
    rfl

theorem rest_bump (ahead : draft.upcoming = token :: behind) : draft.bump.rest = behind := by
  rw [bump_of_upcoming ahead]

theorem rest_of_wrote {term : Term} (ahead : draft.upcoming = term.written.tokens ++ rest)
    (wrote : Wrote (draft.trivia.map .leaf ++ [term.written]) [] draft after) :
    after.rest = rest := by
  have whole := wrote.rest
  rw [← trivia_append_upcoming draft, ahead] at whole
  simpa [Frame.allTokens, allTokens] using whole.symm

/-- In front of a term the machine reads it. -/
def IsRead (term : Term) : Prop :=
  ∀ (draft : Draft) (rest : List Token), draft.upcoming = term.written.tokens ++ rest →
    Follows rest → (∀ power, term.power? = some power → draft.role.power < power) →
      (∀ next, powerAhead? rest = some next →
        ¬ term.EndsInNegation ∧ ∀ power, term.power? = some power → next ≤ power) →
        ∃ after, Reaches (.operand, draft) (.operator true, after) ∧
          Wrote (draft.trivia.map .leaf ++ [term.written]) [] draft after

theorem Follows.head_ne_leftParen (follows : Follows rest) :
    ∀ second ∈ rest.head?, second.kind ≠ .leftParen := by
  cases follows with
  | nil => simp
  | token =>
      intro second isSecond
      obtain rfl : Token.space = second := by simpa using isSecond
      decide

theorem atMacroCall_eq_false (ahead : draft.upcoming = token :: rest)
    (separate : ∀ second ∈ rest.head?, second.kind ≠ .leftParen) :
    atMacroCall draft = false := by
  rw [atMacroCall, ahead]
  cases rest with
  | nil => rfl
  | cons second others =>
      have notParen := separate second rfl
      simp [notParen]

theorem operandStep_of_accepts {form : Atom} (ahead : draft.upcoming = token :: rest)
    (accepts : form.accepts token.kind = true) (follows : Follows rest) :
    operandStep draft = (.operator true, single form.nodeKind draft) := by
  have isPeek := peek_of_upcoming ahead
  have notCall := atMacroCall_eq_false ahead follows.head_ne_leftParen
  cases form with
  | pseudoVariable =>
      simp only [Atom.accepts, Bool.or_eq_true, beq_iff_eq] at accepts
      rcases accepts with isWord | isStar
      · simp [operandStep, primary, isPeek, isWord, notCall, Operator.prefixPower?,
          primaryKind?, Atom.nodeKind]
      · simp [operandStep, primary, isPeek, isStar, notCall, Operator.prefixPower?,
          primaryKind?, Atom.nodeKind]
  | _ =>
      simp only [Atom.accepts, beq_iff_eq] at accepts
      simp [operandStep, primary, isPeek, accepts, notCall, Operator.prefixPower?,
        primaryKind?, Atom.nodeKind]

theorem wrote_single (kind : Kind) (ahead : draft.upcoming = token :: behind) :
    Wrote (draft.trivia.map .leaf ++ [.node kind [.leaf token]]) [] draft
      (single kind draft) := by
  have opened := builds_opened (builds_refl draft) ahead .plain
  exact opened.leave (by simp) kind

theorem isRead_atom {form : Atom} (accepts : form.accepts token.kind = true) :
    IsRead (.atom form token) := by
  intro draft rest ahead follows _ _
  exact ⟨single form.nodeKind draft,
    reaches_of_operandStep (operandStep_of_accepts ahead accepts follows), wrote_single _ ahead⟩

theorem peek_ne_colon2 (follows : Follows draft.rest) : draft.peek ≠ .colon2 := by
  generalize restEq : draft.rest = rest at follows
  cases follows with
  | nil =>
      rw [peek_eq, upcoming, restEq]
      decide
  | token significant notScope =>
      rw [peek_of_upcoming (ahead_of_space restEq significant).2]
      exact notScope

theorem not_isTrivia_of_ident (isWord : token.kind = .ident) : token.isTrivia = false := by
  rw [Token.isTrivia, isWord]
  rfl

theorem wrote_scopes {fuel inner : List Token} (words : ∀ word ∈ inner, word.kind = .ident)
    (enough : inner.length ≤ fuel.length)
    (split : draft.rest = preceded Token.space (preceded scope inner) ++ rest)
    (follows : Follows rest) :
    ∃ after, scopes fuel draft = (!inner.isEmpty, after) ∧
      Wrote ((preceded Token.space (preceded scope inner)).map .leaf) [] draft after := by
  induction inner generalizing draft fuel with
  | nil =>
      have ended : draft.peek ≠ .colon2 := peek_ne_colon2 (split ▸ follows)
      refine ⟨draft, ?_, builds_refl draft⟩
      cases fuel with
      | nil => rfl
      | cons => rw [scopes, if_neg ended]; rfl
  | cons word inner ih =>
      obtain ⟨_, fuel, rfl⟩ : ∃ one others, fuel = one :: others :=
        List.exists_cons_of_length_pos (Nat.lt_of_lt_of_le (Nat.succ_pos _) enough)
      have isWord := words word List.mem_cons_self
      have significant := not_isTrivia_of_ident isWord
      obtain ⟨scopeGap, scopeAhead⟩ := ahead_of_space split rfl
      have isScope : draft.peek = .colon2 := peek_of_upcoming scopeAhead
      obtain ⟨wordGap, wordAhead⟩ := ahead_of_space (rest_bump scopeAhead) significant
      have isIdent : draft.bump.peek = .ident := (peek_of_upcoming wordAhead).trans isWord
      obtain ⟨after, chained, wrote⟩ := ih (fun other member => words other (by simp [member]))
        (Nat.le_of_succ_le_succ enough) (rest_bump wordAhead)
      have wroteScope := wrote_bump scopeAhead
      have wroteWord := wrote_bump wordAhead
      rw [scopeGap] at wroteScope
      rw [wordGap] at wroteWord
      refine ⟨after, ?_, (wroteScope.append wroteWord).append wrote⟩
      rw [scopes, if_pos isScope]
      dsimp only
      rw [if_pos isIdent, chained]
      rfl

theorem wrote_name {rooted : Bool} {first : Token} {inner : List Token}
    (words : ∀ word ∈ first :: inner, word.kind = .ident)
    (ahead : draft.upcoming = (Term.name rooted first inner).written.tokens ++ rest)
    (follows : Follows rest) :
    Wrote (draft.trivia.map .leaf ++ [(Term.name rooted first inner).written]) [] draft
      (name draft) := by
  have isWord := words first List.mem_cons_self
  have innerWords : ∀ word ∈ inner, word.kind = .ident := fun word member =>
    words word (List.mem_cons_of_mem _ member)
  have enough {draft : Draft}
      (split : draft.rest = preceded Token.space (preceded scope inner) ++ rest) :
      inner.length ≤ draft.rest.length := by
    rw [split, List.length_append, length_preceded, length_preceded]
    omega
  rw [tokens_written, Term.tokens, nameTokens] at ahead
  rw [written, nameTokens, spaced_leaves]
  cases rooted with
  | false =>
      rw [if_neg Bool.false_ne_true, List.nil_append, intersperse_cons] at ahead
      have notScope : (draft.enter .plain).peek ≠ .colon2 := by
        rw [peek_of_upcoming (upcoming_enter .plain draft ▸ ahead), isWord]
        decide
      have opened := builds_opened (builds_refl draft) ahead .plain
      have behind : (draft.enter .plain).bump.rest = _ :=
        rest_bump (upcoming_enter .plain draft ▸ ahead)
      obtain ⟨after, chained, wrote⟩ := wrote_scopes innerWords (enough behind) behind follows
      have closed := (opened.append wrote).leave (by simp) (nameKind false inner)
      rw [name, if_neg notScope]
      dsimp only
      rw [chained, if_neg Bool.false_ne_true, List.nil_append, intersperse_cons]
      simpa [nameKind] using closed
  | true =>
      rw [if_pos rfl, List.singleton_append, intersperse_cons] at ahead
      have isScope : (draft.enter .plain).peek = .colon2 := by
        rw [peek_of_upcoming (upcoming_enter .plain draft ▸ ahead)]
        rfl
      have opened := builds_opened (builds_refl draft) ahead .plain
      have behindScope : (draft.enter .plain).bump.rest = _ :=
        rest_bump (upcoming_enter .plain draft ▸ ahead)
      obtain ⟨gap, wordAhead⟩ := ahead_of_space behindScope (not_isTrivia_of_ident isWord)
      have isIdent : (draft.enter .plain).bump.peek = .ident :=
        (peek_of_upcoming wordAhead).trans isWord
      have named := opened.bump wordAhead
      have behind : (draft.enter .plain).bump.bump.rest = _ := rest_bump wordAhead
      obtain ⟨after, chained, wrote⟩ := wrote_scopes innerWords (enough behind) behind follows
      have closed := (named.append wrote).leave (by simp) (nameKind true inner)
      rw [name, if_pos isScope, expect, if_pos isIdent]
      dsimp only
      rw [chained, if_pos rfl, List.singleton_append, intersperse_cons]
      rw [gap] at closed
      simpa [nameKind, preceded] using closed

theorem operandStep_of_name (ahead : draft.upcoming = token :: rest)
    (named : token.kind = .ident ∨ token.kind = .colon2)
    (separate : ∀ second ∈ rest.head?, second.kind ≠ .leftParen) :
    operandStep draft = (.operator true, name draft) := by
  have isPeek := peek_of_upcoming ahead
  have notCall := atMacroCall_eq_false ahead separate
  rcases named with isWord | isScope
  · simp [operandStep, primary, isPeek, isWord, notCall, Operator.prefixPower?, primaryKind?]
  · simp [operandStep, primary, isPeek, isScope, notCall, Operator.prefixPower?, primaryKind?]

theorem isRead_name {rooted : Bool} {first : Token} {inner : List Token}
    (words : ∀ word ∈ first :: inner, word.kind = .ident) :
    IsRead (.name rooted first inner) := by
  intro draft rest ahead follows _ _
  refine ⟨name draft, reaches_of_operandStep ?_, wrote_name words ahead follows⟩
  obtain ⟨token, behind, tokens, named⟩ : ∃ token behind,
      (Term.name rooted first inner).tokens = token :: behind ∧
        (token.kind = .ident ∨ token.kind = .colon2) := by
    cases rooted with
    | true => exact ⟨scope, _, rfl, .inr rfl⟩
    | false => exact ⟨first, _, rfl, .inl (words first List.mem_cons_self)⟩
  rw [tokens_written, tokens, intersperse_cons] at ahead
  refine operandStep_of_name ahead named ?_
  cases behind with
  | nil => exact follows.head_ne_leftParen
  | cons =>
      intro second isSecond
      obtain rfl : Token.space = second := by simpa [preceded] using isSecond
      decide

theorem operatorStep_of_le {complete : Bool}
    (loose : ∀ next, powerAhead? draft.rest = some next → next ≤ draft.role.power) :
    operatorStep complete draft = closeStep draft := by
  rw [← nextPower?_eq_powerAhead?] at loose
  unfold operatorStep
  split
  · next power found =>
      have bound := loose power found
      rw [if_neg]
      simp only [Bool.and_eq_true, decide_eq_true_eq, not_and]
      omega
  · rfl

theorem operatorStep_of_lt {power : Nat} (found : powerAhead? draft.rest = some power)
    (binds : draft.role.power < power) :
    operatorStep true draft = (.operand, (draft.wrap (.binary power)).bump) := by
  rw [← nextPower?_eq_powerAhead?] at found
  have isOperator : Operator.infixPower? draft.peek (draft.textAt 0) = some power := found
  rw [operatorStep, isOperator]
  simp [binds]

theorem operatorStep_of_unary {power : Nat} (role : draft.role = .unary power)
    (loose : ∀ next, powerAhead? draft.rest = some next → next ≤ power) :
    operatorStep true draft = (.operator true, draft.leave .unaryExpr) := by
  rw [operatorStep_of_le, closeStep, role]
  rwa [role]

theorem operatorStep_of_binary {power : Nat} (role : draft.role = .binary power)
    (loose : ∀ next, powerAhead? draft.rest = some next → next ≤ power) :
    operatorStep true draft = (.operator true, draft.leave .binaryExpr) := by
  rw [operatorStep_of_le, closeStep, role]
  rwa [role]

theorem exists_first_token {term : Term} (fits : term.Fits dialect) :
    ∃ first behind, term.written.tokens = first :: behind ∧ first.isTrivia = false ∧
      first.kind.endsLine = false ∧ first.kind ≠ .rightParen := by
  obtain ⟨first, rest, tokens, properties⟩ := fits.exists_first
  exact ⟨first, _, by rw [tokens_written, tokens, intersperse_cons], properties⟩

theorem ahead_of_operand {term : Term} (fits : term.Fits dialect)
    (split : draft.rest = Token.space :: (term.written.tokens ++ rest)) :
    draft.trivia = [Token.space] ∧ draft.upcoming = term.written.tokens ++ rest := by
  obtain ⟨first, behind, tokens, significant, -⟩ := exists_first_token fits
  rw [tokens] at split ⊢
  exact ahead_of_space split significant

theorem tokens_parens (inner : Term) :
    (Term.parens inner).written.tokens =
      opening :: Token.space :: (inner.written.tokens ++ [Token.space, closing]) := by
  rw [written]
  simp [spaced, List.intersperse, Written.tokens, allTokens]

theorem tokens_prefixed (operator : Token) (operand : Term) :
    (Term.prefixed operator operand).written.tokens =
      operator :: Token.space :: operand.written.tokens := by
  rw [written]
  simp [spaced, List.intersperse, Written.tokens, allTokens]

theorem tokens_infixed (left : Term) (operator : Token) (right : Term) :
    (Term.infixed left operator right).written.tokens =
      left.written.tokens ++ Token.space :: operator :: Token.space :: right.written.tokens := by
  rw [written]
  simp [spaced, List.intersperse, Written.tokens, allTokens]

theorem power?_bounds {term : Term} {power : Nat} (found : term.power? = some power) :
    Operator.negationPower < power ∧ power < Operator.tightPower := by
  cases term with
  | infixed => exact infixPower?_bounds found
  | _ => contradiction

/-- Where nothing outside holds on to a term and no operator follows, it is read as a
whole, and then the node around it goes on. -/
theorem IsRead.enclosed {term : Term} (read : IsRead term)
    (ahead : draft.upcoming = term.written.tokens ++ rest) (follows : Follows rest)
    (loosest : draft.role.power = 0) (noOperator : powerAhead? rest = none) :
    ∃ after, Reaches (.operand, draft) (closeStep after) ∧
      Wrote (draft.trivia.map .leaf ++ [term.written]) [] draft after ∧ after.rest = rest := by
  obtain ⟨after, reaches, wrote⟩ := read draft rest ahead follows
    (fun power found => by
      rw [loosest]
      exact Nat.lt_of_le_of_lt (Nat.zero_le _) (power?_bounds found).1)
    (fun next found => by
      rw [noOperator] at found
      contradiction)
  have restAfter := rest_of_wrote ahead wrote
  have goesOn : operatorStep true after = closeStep after :=
    operatorStep_of_le (by simp [restAfter, noOperator])
  exact ⟨after, reaches.trans (reaches_of_operatorStep goesOn), wrote, restAfter⟩

theorem follows_closing (rest : List Token) : Follows (Token.space :: closing :: rest) :=
  .token rfl (by decide)

theorem powerAhead?_closing (rest : List Token) :
    powerAhead? (Token.space :: closing :: rest) = none :=
  powerAhead?_space rfl

theorem isRead_parens {inner : Term} (fits : inner.Fits dialect) (ih : IsRead inner) :
    IsRead (.parens inner) := by
  intro draft rest ahead follows _ _
  rw [tokens_parens, List.cons_append, List.cons_append, List.append_assoc] at ahead
  have opened := builds_opened (builds_refl draft) ahead .paren
  have first : operandStep draft = (.operand, (draft.enter .paren).bump) := by
    simp [operandStep, peek_of_upcoming ahead, opening, Operator.prefixPower?]
  obtain ⟨gap, innerAhead⟩ := ahead_of_operand fits
    (rest_bump (upcoming_enter .paren draft ▸ ahead))
  obtain ⟨after, reaches, wrote, restAfter⟩ := ih.enclosed innerAhead (follows_closing rest)
    (by rw [opened.role]; rfl) (powerAhead?_closing rest)
  have built := opened.append wrote
  obtain ⟨closingGap, closingAhead⟩ := ahead_of_space restAfter rfl
  have isClosing : after.peek = .rightParen := peek_of_upcoming closingAhead
  have last : closeStep after = (.operator true, after.bump.leave .parenExpr) := by
    rw [closeStep, built.role]
    simp [expect, isClosing]
  refine ⟨after.bump.leave .parenExpr, ?_, ?_⟩
  · exact (reaches_of_operandStep first).trans (last ▸ reaches)
  · have closed := (built.bump closingAhead).leave (by simp) .parenExpr
    rw [gap, closingGap] at closed
    simpa [written, spaced, List.intersperse] using closed

theorem isRead_prefixed {operator : Token} {operand : Term} {power : Nat}
    (found : Operator.prefixPower? operator.kind operator.text = some power)
    (tight : power ≠ Operator.negationPower → operand.power? = none)
    (fits : operand.Fits dialect) (ih : IsRead operand) :
    IsRead (.prefixed operator operand) := by
  intro draft rest ahead follows _ closedBefore
  rw [tokens_prefixed, List.cons_append, List.cons_append] at ahead
  have opened := builds_opened (builds_refl draft) ahead (.unary power)
  have first : operandStep draft = (.operand, (draft.enter (.unary power)).bump) := by
    rw [operandStep, peek_of_upcoming ahead, textAt_of_upcoming ahead, found]
  have isTight (next : Nat) (isNext : powerAhead? rest = some next) :
      power ≠ Operator.negationPower := by
    rintro rfl
    exact (closedBefore next isNext).1 (.inl found)
  obtain ⟨gap, operandAhead⟩ := ahead_of_operand fits
    (rest_bump (upcoming_enter (.unary power) draft ▸ ahead))
  obtain ⟨after, reaches, wrote⟩ := ih _ rest operandAhead follows
    (fun inner isInner => by
      rw [opened.role]
      by_cases negates : power = Operator.negationPower
      · subst negates
        exact (power?_bounds isInner).1
      · rw [tight negates] at isInner
        contradiction)
    (fun next isNext => by
      refine ⟨fun ends => (closedBefore next isNext).1 (.inr ends), ?_⟩
      rw [tight (isTight next isNext)]
      simp)
  have restAfter := rest_of_wrote operandAhead wrote
  have built := opened.append wrote
  have last : operatorStep true after = (.operator true, after.leave .unaryExpr) := by
    refine operatorStep_of_unary built.role fun next isNext => ?_
    rw [restAfter] at isNext
    rcases prefixPower?_cases found with negates | isTightest
    · exact absurd negates (isTight next isNext)
    · subst isTightest
      exact Nat.le_of_lt (powerAhead?_bound isNext)
  refine ⟨after.leave .unaryExpr, ?_, ?_⟩
  · exact ((reaches_of_operandStep first).trans reaches).trans
      (reaches_of_operatorStep last)
  · have closed := built.leave (by simp) .unaryExpr
    rw [gap] at closed
    simpa [written, spaced, List.intersperse] using closed

theorem reads_left {left : Term} {operator : Token} {power : Nat}
    (ahead : draft.upcoming = left.written.tokens ++ Token.space :: operator :: behind)
    (significant : operator.isTrivia = false)
    (found : Operator.infixPower? operator.kind operator.text = some power)
    (notLooser : ∀ inner, left.power? = some inner → power ≤ inner)
    (closed : ¬ left.EndsInNegation) (binds : draft.role.power < power)
    (read : IsRead left) :
    ∃ opened, Reaches (.operand, draft) (.operand, opened) ∧
      Builds [⟨draft.trivia, .binary power,
        [left.written, .leaf Token.space, .leaf operator]⟩] [] [] draft opened ∧
      opened.rest = behind := by
  have notScope : operator.kind ≠ .colon2 := by
    intro isScope
    rw [isScope] at found
    contradiction
  have operatorNext : powerAhead? (Token.space :: operator :: behind) = some power := by
    rw [powerAhead?_space significant, found]
  -- The operator leaves the left operand whole, so this is read up to it.
  obtain ⟨middle, reaches, wrote⟩ := read draft _ ahead (.token significant notScope)
    (fun inner isInner => Nat.lt_of_lt_of_le binds (notLooser inner isInner))
    (fun next isNext => by
      obtain rfl := Option.some.inj (operatorNext.symm.trans isNext)
      exact ⟨closed, notLooser⟩)
  have restMiddle := rest_of_wrote ahead wrote
  obtain ⟨gap, operatorAhead⟩ := ahead_of_space restMiddle significant
  have taken : operatorStep true middle =
      (.operand, (middle.wrap (.binary power)).bump) := by
    refine operatorStep_of_lt (restMiddle ▸ operatorNext) ?_
    rw [wrote.role]
    exact binds
  have aheadWrapped : (middle.wrap (.binary power)).upcoming = _ := operatorAhead
  have sameGap : (middle.wrap (.binary power)).trivia = [Token.space] := gap
  have opened := (wrote.wrap (.binary power)).bump aheadWrapped
  rw [sameGap] at opened
  exact ⟨_, reaches.trans (reaches_of_operatorStep taken), opened, rest_bump aheadWrapped⟩

theorem isRead_infixed {left right : Term} {operator : Token} {power : Nat}
    (alone : operator.StandsAlone dialect)
    (found : Operator.infixPower? operator.kind operator.text = some power)
    (notLooser : ∀ inner, left.power? = some inner → power ≤ inner)
    (closed : ¬ left.EndsInNegation)
    (tighter : ∀ inner, right.power? = some inner → power < inner)
    (first : IsRead left) (fits : right.Fits dialect) (second : IsRead right) :
    IsRead (.infixed left operator right) := by
  intro draft rest ahead follows binds closedBefore
  rw [tokens_infixed, List.append_assoc, List.cons_append, List.cons_append,
    List.cons_append] at ahead
  obtain ⟨opened, reachesLeft, builds, restOpened⟩ := reads_left ahead alone.not_isTrivia
    found notLooser closed (binds power found) first
  obtain ⟨gap, rightAhead⟩ := ahead_of_operand fits restOpened
  -- The operator holds on to what follows more loosely than the right operand does.
  obtain ⟨after, reachesRight, wroteRight⟩ := second opened rest rightAhead follows
    (fun inner isInner => by
      rw [builds.role]
      exact tighter inner isInner)
    (fun next isNext => by
      obtain ⟨rightCloses, bound⟩ := closedBefore next isNext
      refine ⟨rightCloses, fun inner isInner => ?_⟩
      exact Nat.le_of_lt (Nat.lt_of_le_of_lt (bound power found) (tighter inner isInner)))
  have built := builds.append wroteRight
  have last : operatorStep true after = (.operator true, after.leave .binaryExpr) := by
    refine operatorStep_of_binary built.role fun next isNext => ?_
    rw [rest_of_wrote rightAhead wroteRight] at isNext
    exact (closedBefore next isNext).2 power found
  refine ⟨after.leave .binaryExpr, ?_, ?_⟩
  · exact (reachesLeft.trans reachesRight).trans (reaches_of_operatorStep last)
  · have closedNode := built.leave (by simp) .binaryExpr
    rw [gap] at closedNode
    simpa [written, spaced, List.intersperse] using closedNode

/-- The arguments of a call behind a given one, and the closing parenthesis. -/
def argumentsBehind (arguments : List Term) : List Written :=
  preceded (.leaf Token.space) (preceded (.leaf comma) (arguments.map written)) ++
    [.leaf Token.space, .leaf closing]

theorem exists_argumentsBehind (arguments : List Term) (rest : List Token) :
    ∃ token behind,
      allTokens (argumentsBehind arguments) ++ rest = Token.space :: token :: behind ∧
        (token = comma ∨ token = closing) := by
  cases arguments with
  | nil => exact ⟨closing, rest, rfl, .inr rfl⟩
  | cons => exact ⟨comma, _, rfl, .inl rfl⟩

theorem reads_argument {argument : Term} {arguments : List Term} {children : List Written}
    {gap : List Token} {base : Draft}
    (builds : Builds [⟨gap, .call, children⟩] [] [] base draft)
    (split : draft.rest = Token.space ::
      (argument.written.tokens ++ (allTokens (argumentsBehind arguments) ++ rest)))
    (fits : argument.Fits dialect) (read : IsRead argument) :
    ∃ after, Reaches (.operand, draft) (closeStep after) ∧
      Builds [⟨gap, .call, children⟩] [.leaf Token.space, argument.written] [] base after ∧
        after.rest = allTokens (argumentsBehind arguments) ++ rest := by
  obtain ⟨argumentGap, ahead⟩ := ahead_of_operand fits split
  obtain ⟨token, behind, isBehind, isMark⟩ := exists_argumentsBehind arguments rest
  have significant : token.isTrivia = false := by
    rcases isMark with rfl | rfl
    all_goals rfl
  have notScope : token.kind ≠ .colon2 := by
    rcases isMark with rfl | rfl
    all_goals decide
  have noOperator : powerAhead? (allTokens (argumentsBehind arguments) ++ rest) = none := by
    rw [isBehind, powerAhead?_space significant]
    rcases isMark with rfl | rfl
    all_goals rfl
  obtain ⟨after, reaches, wrote, restAfter⟩ := read.enclosed ahead
    (isBehind ▸ .token significant notScope) (by rw [builds.role]; rfl) noOperator
  rw [argumentGap] at wrote
  exact ⟨after, reaches, builds.append wrote, restAfter⟩

theorem reads_arguments {argument : Term} {arguments : List Term} {children : List Written}
    {gap : List Token} {base : Draft}
    (builds : Builds [⟨gap, .call, children⟩] [] [] base draft)
    (split : draft.rest = Token.space ::
      (argument.written.tokens ++ (allTokens (argumentsBehind arguments) ++ rest)))
    (fits : ∀ term ∈ argument :: arguments, term.Fits dialect)
    (read : ∀ term ∈ argument :: arguments, IsRead term) :
    ∃ after, Reaches (.operand, draft) (.operator true, after) ∧
      Wrote (gap.map .leaf ++ [.node .callExpr (children ++
        (.leaf Token.space :: argument.written :: argumentsBehind arguments))]) [] base after := by
  induction arguments generalizing argument children draft with
  | nil =>
      obtain ⟨last, reaches, built, restLast⟩ :=
        reads_argument builds split (fits argument (by simp)) (read argument (by simp))
      obtain ⟨closingGap, closingAhead⟩ := ahead_of_space restLast rfl
      have isClosing : last.peek = .rightParen := peek_of_upcoming closingAhead
      have closes : closeStep last = (.operator true, last.bump.leave .callExpr) := by
        rw [closeStep, built.role]
        simp [expect, isClosing]
      have closed := (built.bump closingAhead).leave (by simp) .callExpr
      refine ⟨last.bump.leave .callExpr, closes ▸ reaches, ?_⟩
      rw [closingGap] at closed
      simpa [argumentsBehind, preceded] using closed
  | cons second arguments ih =>
      obtain ⟨middle, reaches, built, restMiddle⟩ :=
        reads_argument builds split (fits argument (by simp)) (read argument (by simp))
      have splitMiddle : middle.rest = Token.space :: comma :: Token.space ::
          (second.written.tokens ++ (allTokens (argumentsBehind arguments) ++ rest)) := by
        rw [restMiddle]
        simp [argumentsBehind, preceded, allTokens, Written.tokens]
      obtain ⟨commaGap, commaAhead⟩ := ahead_of_space splitMiddle rfl
      have isComma : middle.peek = .comma := peek_of_upcoming commaAhead
      have goesOn : closeStep middle = (.operand, middle.bump) := by
        rw [closeStep, built.role]
        simp [isComma]
      obtain ⟨after, reachesRest, wrote⟩ := ih (built.bump commaAhead) (rest_bump commaAhead)
        (fun term member => fits term (List.mem_cons_of_mem _ member))
        (fun term member => read term (List.mem_cons_of_mem _ member))
      refine ⟨after, (goesOn ▸ reaches).trans reachesRest, ?_⟩
      rw [commaGap] at wrote
      simpa [argumentsBehind, preceded] using wrote

/-- What stands in a call behind its opening parenthesis. -/
def callBehind : List Term → List Written
  | [] => [.leaf Token.space, .leaf closing]
  | argument :: arguments =>
      .leaf Token.space :: argument.written :: argumentsBehind arguments

theorem written_call (function : Token) (arguments : List Term) :
    (Term.call function arguments).written =
      .node .callExpr ([.leaf function, .leaf Token.space, .leaf opening] ++
        callBehind arguments) := by
  cases arguments with
  | nil => rfl
  | cons argument arguments =>
      rw [written, listWritten_eq_map, List.map_cons, intersperse_cons, spaced, intersperse_cons]
      simp [preceded, callBehind, argumentsBehind]

theorem isRead_call {function : Token} {arguments : List Term}
    (isFunction : function.kind = .pseudoFnKw)
    (fits : ∀ argument ∈ arguments, argument.Fits dialect)
    (read : ∀ argument ∈ arguments, IsRead argument) : IsRead (.call function arguments) := by
  intro draft rest ahead follows _ _
  rw [written_call] at ahead ⊢
  have opened := builds_opened (builds_refl draft) ahead .call
  obtain ⟨openingGap, openingAhead⟩ :=
    ahead_of_space (rest_bump (upcoming_enter .call draft ▸ ahead)) rfl
  have built := opened.bump openingAhead
  have restInside : (draft.enter .call).bump.bump.rest =
      allTokens (callBehind arguments) ++ rest := rest_bump openingAhead
  have begins : operandStep draft = callHead draft := by
    simp [operandStep, peek_of_upcoming ahead, isFunction, Operator.prefixPower?]
  have isOpening : (draft.enter .call).bump.peek = .leftParen := peek_of_upcoming openingAhead
  rw [openingGap] at built
  cases arguments with
  | nil =>
      obtain ⟨closingGap, closingAhead⟩ := ahead_of_space restInside rfl
      have isClosing : (draft.enter .call).bump.bump.peek = .rightParen :=
        peek_of_upcoming closingAhead
      have empty : callHead draft =
          (.operator true, (draft.enter .call).bump.bump.bump.leave .callExpr) := by
        rw [callHead, if_pos isOpening, if_pos isClosing]
      have closed := (built.bump closingAhead).leave (by simp) .callExpr
      refine ⟨_, reaches_of_operandStep (begins.trans empty), ?_⟩
      rw [closingGap] at closed
      simpa [callBehind] using closed
  | cons argument arguments =>
      obtain ⟨first, others, tokens, significant, -, notClosing⟩ :=
        exists_first_token (fits argument List.mem_cons_self)
      have split : (draft.enter .call).bump.bump.rest = Token.space ::
          (argument.written.tokens ++ (allTokens (argumentsBehind arguments) ++ rest)) := by
        rw [restInside]
        simp [callBehind, allTokens, Written.tokens]
      have notEmpty : (draft.enter .call).bump.bump.peek ≠ .rightParen := by
        rw [tokens] at split
        rw [peek_of_upcoming (ahead_of_space split significant).2]
        exact notClosing
      have goesOn : callHead draft = (.operand, (draft.enter .call).bump.bump) := by
        rw [callHead, if_pos isOpening, if_neg notEmpty]
      obtain ⟨after, reaches, wrote⟩ := reads_arguments built split fits read
      refine ⟨after, (reaches_of_operandStep (begins.trans goesOn)).trans reaches, ?_⟩
      simpa [callBehind] using wrote

theorem isRead_of_fits {term : Term} (fits : term.Fits dialect) : IsRead term := by
  induction fits with
  | atom accepts => exact isRead_atom accepts
  | name words => exact isRead_name fun word member => (words word member).1
  | parens fits ih => exact isRead_parens fits ih
  | prefixed _ found tight fits ih => exact isRead_prefixed found tight fits ih
  | infixed alone found notLooser closed tighter _ fits first second =>
      exact isRead_infixed alone found notLooser closed tighter first fits second
  | call isFunction _ fits ih => exact isRead_call isFunction fits ih

end Expression
end Asm6502
