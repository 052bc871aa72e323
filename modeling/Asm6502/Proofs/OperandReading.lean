import Asm6502.Proofs.OperandTerms

/-!
# Printed operands are read

The grammar takes a printed operand as one node, whatever stands in front of it.  The
marks are taken one by one, and the address between them is read as it would be alone.
-/

namespace Asm6502

open Draft Written

theorem Term.Fits.tokens_ne_nil {dialect : Dialect} {term : Term} (fits : term.Fits dialect) :
    term.tokens ≠ [] := by
  obtain ⟨first, rest, tokens, -⟩ := fits.exists_first
  simp [tokens]

theorem Token.marks_of_standsAlone {dialect : Dialect} {tokens : List Token}
    (alone : ∀ token ∈ tokens, token.StandsAlone dialect) :
    ∀ token ∈ tokens, token.isTrivia = false :=
  fun token member => (alone token member).not_isTrivia

theorem Token.significantAt?_eq_getElem? (index : Nat) (tokens : List Token) :
    significantAt? index tokens = (tokens.filter fun token => !token.isTrivia)[index]? := by
  induction tokens generalizing index with
  | nil => cases index <;> rfl
  | cons token rest ih =>
      unfold significantAt?
      by_cases isTrivia : token.isTrivia = true
      · simp [isTrivia, ih]
      · cases index with
        | zero => simp [isTrivia]
        | succ index => simp [isTrivia, ih]

namespace Draft

variable {draft : Draft} {token : Token} {tokens behind : List Token}

theorem significant_of_ahead (marks : ∀ token ∈ tokens, token.isTrivia = false)
    (ahead : draft.upcoming = tokens.intersperse Token.space) : draft.significant = tokens := by
  rw [significant_eq_filter_upcoming, ahead]
  exact filter_intersperse (by decide) fun token member => by simp [marks token member]

theorem tokenAt?_of_ahead (marks : ∀ token ∈ tokens, token.isTrivia = false)
    (ahead : draft.upcoming = tokens.intersperse Token.space) (index : Nat) :
    draft.tokenAt? index = tokens[index]? := by
  rw [tokenAt?, Token.significantAt?_eq_getElem?]
  exact congrArg (·[index]?) (significant_of_ahead marks ahead)

theorem wrote_bump_space (split : draft.rest = Token.space :: token :: behind)
    (significant : token.isTrivia = false) :
    draft.peek = token.kind ∧ Wrote [.leaf Token.space, .leaf token] [] draft draft.bump ∧
      draft.bump.rest = behind := by
  obtain ⟨gap, ahead⟩ := Expression.ahead_of_space split significant
  have wrote := wrote_bump ahead
  rw [gap] at wrote
  exact ⟨peek_of_upcoming ahead, wrote, Expression.rest_bump ahead⟩

theorem ahead_of_preceded (split : draft.rest = preceded Token.space tokens)
    (marks : ∀ token ∈ tokens, token.isTrivia = false) (nonempty : tokens ≠ []) :
    draft.trivia = [Token.space] ∧ draft.upcoming = tokens.intersperse Token.space := by
  obtain ⟨token, rest, rfl⟩ := List.exists_cons_of_ne_nil nonempty
  rw [intersperse_cons]
  exact Expression.ahead_of_space split (marks token List.mem_cons_self)

end Draft

/-- What follows the address of an operand: nothing, or a token that ends it. -/
inductive EndsAddress : List Token → Prop
  | nil : EndsAddress []
  | comma {rest : List Token} : EndsAddress (Term.comma :: rest)
  | closing {rest : List Token} : EndsAddress (Term.closing :: rest)

namespace Operand

open OperandTerm

variable {draft : Draft} {term : Term} {more : List Token}

theorem ends_indexTokens (index? : Option IndexWord) : EndsAddress (indexTokens index?) := by
  cases index? with
  | none => exact .nil
  | some => exact .comma

theorem ends_closing (inner? outer? : Option IndexWord) :
    EndsAddress (indexTokens inner? ++ Term.closing :: indexTokens outer?) := by
  cases inner? with
  | none => exact .closing
  | some => exact .comma

/-- An address is read up to the mark behind it. -/
theorem wrote_expression (fits : term.Fits .stock) (plain : draft.role = .plain)
    (ends : EndsAddress more)
    (ahead : draft.upcoming = (term.tokens ++ more).intersperse Token.space) :
    Wrote (draft.trivia.map .leaf ++ [term.written]) [] draft (Expression.read draft) ∧
      (Expression.read draft).rest = preceded Token.space more := by
  rw [intersperse_append (fits.tokens_ne_nil), ← Term.tokens_written] at ahead
  have follows : Expression.Follows (preceded Token.space more) := by
    cases ends with
    | nil => exact .nil
    | comma => exact .token rfl (by decide)
    | closing => exact .token rfl (by decide)
  have noOperator : Expression.powerAhead? (preceded Token.space more) = none := by
    cases ends with
    | nil => rfl
    | comma => exact Expression.powerAhead?_space rfl
    | closing => exact Expression.powerAhead?_space rfl
  exact Expression.wrote_read_followed fits plain ahead follows noOperator

/-- An index is taken, if there is one. -/
theorem wrote_index {index? : Option IndexWord} (cause : Cause)
    (split : draft.rest = preceded Token.space (indexTokens index? ++ more))
    (goesOn : draft.peek = .comma → index? ≠ none) :
    Wrote ((preceded Token.space (indexTokens index?)).map .leaf) [] draft (index cause draft) ∧
      (index cause draft).rest = preceded Token.space more := by
  cases index? with
  | none =>
      have stays : index cause draft = draft := if_neg fun isComma => goesOn isComma rfl
      rw [stays]
      exact ⟨builds_refl draft, split⟩
  | some word =>
      obtain ⟨alone, isRegister, -⟩ := word.known
      obtain ⟨isComma, wroteComma, restComma⟩ := wrote_bump_space split rfl
      obtain ⟨isWord, wroteWord, restWord⟩ := wrote_bump_space restComma alone.not_isTrivia
      have taken : index cause draft = draft.bump.bump := by
        have isMark : draft.peek = .comma := isComma
        rw [index, if_pos isMark, expect, if_pos (isWord.trans isRegister)]
      rw [taken]
      exact ⟨wroteComma.append wroteWord, restWord⟩

/-- The index that ends an operand is taken, if there is one. -/
theorem wrote_lastIndex {index? : Option IndexWord} (cause : Cause)
    (split : draft.rest = preceded Token.space (indexTokens index?)) :
    Wrote ((preceded Token.space (indexTokens index?)).map .leaf) [] draft (index cause draft) ∧
      (index cause draft).rest = [] := by
  have atEnd : draft.peek = .comma → index? ≠ none := by
    rintro isComma rfl
    rw [peek_of_length_rest_eq_zero (congrArg List.length split)] at isComma
    contradiction
  rw [← List.append_nil (indexTokens index?)] at split
  exact wrote_index cause split atEnd

/-- A draft behind the size of an address. -/
def sized (draft : Draft) : Draft :=
  if hasSize draft then draft.bump.bump else draft

def placed (draft : Draft) : Draft :=
  if draft.peek = .leftParen && isIndirect draft then
    (index .expectedXRegister (Expression.read draft.bump)).expect .rightParen
      .expectedClosingParen
  else Expression.read draft

theorem address_eq (draft : Draft) :
    address draft = index .expectedIndexRegister (placed (sized draft)) :=
  rfl

theorem hasSize_eq_false {tokens : List Token}
    (marks : ∀ token ∈ tokens, token.isTrivia = false)
    (ahead : draft.upcoming = tokens.intersperse Token.space)
    (noColon : ∀ token ∈ tokens, token.kind ≠ .colon) : hasSize draft = false := by
  have notColon : draft.kindAt 1 ≠ .colon := by
    rw [kindAt, tokenAt?_of_ahead marks ahead]
    cases found : tokens[1]? with
    | none => decide
    | some token => exact noColon token (List.mem_of_getElem? found)
  simp [hasSize, notColon]

theorem placed_of_bare (fits : term.Fits .stock) (bare : ∀ inner, term ≠ .parens inner)
    (marks : ∀ token ∈ more, token.isTrivia = false)
    (ahead : draft.upcoming = (term.tokens ++ more).intersperse Token.space) :
    placed draft = Expression.read draft := by
  obtain ⟨first, behind, split, -⟩ := fits.exists_first
  have allMarks : ∀ token ∈ term.tokens ++ more, token.isTrivia = false := by
    intro token member
    exact (List.mem_append.mp member).elim (Token.marks_of_standsAlone fits.standsAlone token)
      (marks token)
  have isFirst : draft.peek = first.kind := by
    rw [split, List.cons_append, intersperse_cons] at ahead
    exact peek_of_upcoming ahead
  have groups (opens : draft.peek = .leftParen) : isIndirect draft = false := by
    rw [isIndirect, significant_of_ahead allMarks ahead, List.map_append]
    exact isIndirectAt_bare fits bare split (isFirst ▸ opens) _
  rw [placed, if_neg]
  simp only [Bool.and_eq_true, decide_eq_true_eq, not_and]
  intro opens
  rw [groups opens]
  exact Bool.false_ne_true

theorem wrote_bare {index? : Option IndexWord} (fits : term.Fits .stock)
    (bare : ∀ inner, term ≠ .parens inner) (plain : draft.role = .plain)
    (ahead : draft.upcoming = (term.tokens ++ indexTokens index?).intersperse Token.space) :
    Wrote (draft.trivia.map .leaf ++ [term.written] ++
        (preceded Token.space (indexTokens index?)).map .leaf) [] draft
      (index .expectedIndexRegister (placed draft)) ∧
      (index .expectedIndexRegister (placed draft)).rest = [] := by
  obtain ⟨wrote, behind⟩ := wrote_expression fits plain (ends_indexTokens index?) ahead
  obtain ⟨wroteIndex, ended⟩ := wrote_lastIndex .expectedIndexRegister behind
  rw [placed_of_bare fits bare (Token.marks_of_standsAlone (standsAlone_indexTokens index?)) ahead]
  exact ⟨wrote.append wroteIndex, ended⟩

theorem isIndirectAt_trail (inner? outer? : Option IndexWord) :
    isIndirectAt 1 ((indexTokens inner? ++ Term.closing :: indexTokens outer?).map Token.kind) =
      true := by
  cases inner? with
  | some => rfl
  | none => cases outer? <;> rfl

theorem isIndirect_of_enclosed {inner? outer? : Option IndexWord} (fits : term.Fits .stock)
    (ahead : draft.upcoming = (enclosed term inner? outer?).tokens.intersperse Token.space) :
    isIndirect draft = true := by
  have wholeFits : (enclosed term inner? outer?).Fits := ⟨fits, by simp⟩
  rw [isIndirect, significant_of_ahead (Token.marks_of_standsAlone wholeFits.standsAlone) ahead,
    ← isIndirectAt_enclosed fits (isIndirectAt_trail inner? outer?), ← List.map_append]
  rfl

/-- An address in parentheses of its own is read between them, and the index as well that
stands in them. -/
theorem wrote_placed_enclosed {inner? outer? : Option IndexWord} (fits : term.Fits .stock)
    (plain : draft.role = .plain) (gap : draft.trivia = [])
    (ahead : draft.upcoming = (enclosed term inner? outer?).tokens.intersperse Token.space) :
    Wrote ([.leaf Term.opening, .leaf Token.space, term.written] ++
        (preceded Token.space (indexTokens inner? ++ [Term.closing])).map .leaf) [] draft
        (placed draft) ∧
      (placed draft).rest = preceded Token.space (indexTokens outer?) := by
  have indirect := isIndirect_of_enclosed fits ahead
  have behindMarks : ∀ token ∈ term.tokens ++
      (indexTokens inner? ++ Term.closing :: indexTokens outer?), token.isTrivia = false := by
    have wholeFits : (enclosed term inner? outer?).Fits := ⟨fits, by simp⟩
    exact fun token member =>
      (wholeFits.standsAlone token (List.mem_cons_of_mem _ member)).not_isTrivia
  have split : (enclosed term inner? outer?).tokens = Term.opening ::
      (term.tokens ++ (indexTokens inner? ++ Term.closing :: indexTokens outer?)) := rfl
  rw [split, intersperse_cons] at ahead
  have isOpening : draft.peek = .leftParen := peek_of_upcoming ahead
  have wroteOpening := wrote_bump ahead
  obtain ⟨innerGap, innerAhead⟩ := ahead_of_preceded (Expression.rest_bump ahead) behindMarks
    (by simp)
  obtain ⟨wroteAddress, restAddress⟩ := wrote_expression fits (wroteOpening.role.trans plain)
    (ends_closing inner? outer?) innerAhead
  have goesOn : (Expression.read draft.bump).peek = .comma → inner? ≠ none := by
    rintro isComma rfl
    rw [(wrote_bump_space restAddress rfl).1] at isComma
    contradiction
  obtain ⟨wroteInner, restInner⟩ := wrote_index .expectedXRegister restAddress goesOn
  obtain ⟨isClosing, wroteClosing, restClosing⟩ := wrote_bump_space restInner rfl
  have isPlaced : placed draft =
      (index .expectedXRegister (Expression.read draft.bump)).bump := by
    have isMark : (index .expectedXRegister (Expression.read draft.bump)).peek = .rightParen :=
      isClosing
    rw [placed, isOpening, indirect, if_pos (by decide), expect, if_pos isMark]
  rw [gap] at wroteOpening
  rw [innerGap] at wroteAddress
  rw [isPlaced]
  refine ⟨?_, restClosing⟩
  have whole := ((wroteOpening.append wroteAddress).append wroteInner).append wroteClosing
  simpa [preceded] using whole

theorem wrote_enclosed {inner? outer? : Option IndexWord} (fits : term.Fits .stock)
    (plain : draft.role = .plain) (gap : draft.trivia = [])
    (ahead : draft.upcoming = (enclosed term inner? outer?).tokens.intersperse Token.space) :
    Wrote (Term.spaced (enclosed term inner? outer?).parts) [] draft
        (index .expectedIndexRegister (placed draft)) ∧
      (index .expectedIndexRegister (placed draft)).rest = [] := by
  obtain ⟨wrote, behind⟩ := wrote_placed_enclosed fits plain gap ahead
  obtain ⟨wroteOuter, ended⟩ := wrote_lastIndex .expectedIndexRegister behind
  refine ⟨?_, ended⟩
  have whole := wrote.append wroteOuter
  rw [map_preceded, map_preceded] at whole
  simpa [parts, lead, trail, OperandTerm.address, Term.spaced, intersperse_cons,
    preceded] using whole

/-- What is read in the node of an operand. -/
def inside (draft : Draft) : Draft :=
  match draft.peek with
  | .hash => Expression.read draft.bump
  | .register => if (draft.kindAt 1).endsLine then draft.bump else address draft
  | _ => address draft

theorem read_eq (goesOn : draft.atLineEnd = false) : read draft = draft.node .operand inside := by
  rw [read, goesOn]
  rfl

theorem inside_eq_address (notHash : draft.peek ≠ .hash)
    (notAlone : draft.peek = .register → (draft.kindAt 1).endsLine = false) :
    inside draft = address draft := by
  unfold inside
  split
  · contradiction
  · next isRegister => rw [notAlone isRegister, if_neg Bool.false_ne_true]
  · rfl

theorem wrote_immediate (fits : term.Fits .stock) (plain : draft.role = .plain)
    (gap : draft.trivia = [])
    (ahead : draft.upcoming = (immediate term).tokens.intersperse Token.space) :
    Wrote (Term.spaced (immediate term).parts) [] draft (inside draft) ∧
      (inside draft).rest = [] := by
  have split : (immediate term).tokens = hash :: (term.tokens ++ []) := rfl
  rw [split, intersperse_cons] at ahead
  have isHash : draft.peek = .hash := peek_of_upcoming ahead
  have wroteHash := wrote_bump ahead
  have isInside : inside draft = Expression.read draft.bump := by rw [inside, isHash]
  have marks : ∀ token ∈ term.tokens ++ [], token.isTrivia = false := by
    rw [List.append_nil]
    exact Token.marks_of_standsAlone fits.standsAlone
  obtain ⟨valueGap, valueAhead⟩ := ahead_of_preceded (Expression.rest_bump ahead) marks
    (by simpa using fits.tokens_ne_nil)
  obtain ⟨wroteValue, ended⟩ :=
    wrote_expression fits (wroteHash.role.trans plain) .nil valueAhead
  rw [gap] at wroteHash
  rw [valueGap] at wroteValue
  rw [isInside]
  exact ⟨wroteHash.append wroteValue, ended⟩

theorem inside_of_unsized {index? : Option IndexWord} (fits : term.Fits .stock)
    (bare : ∀ inner, term ≠ .parens inner)
    (ahead : draft.upcoming = (direct none term index?).tokens.intersperse Token.space) :
    inside draft = index .expectedIndexRegister (placed draft) := by
  have wholeFits : (direct none term index?).Fits := ⟨fits, by simpa using bare⟩
  have marks := Token.marks_of_standsAlone wholeFits.standsAlone
  obtain ⟨first, behind, split, -⟩ := fits.exists_first
  have isFirst : draft.peek = first.kind := by
    have whole : (direct none term index?).tokens = first :: (behind ++ indexTokens index?) := by
      change term.tokens ++ indexTokens index? = _
      rw [split, List.cons_append]
    rw [whole, intersperse_cons] at ahead
    exact peek_of_upcoming ahead
  obtain ⟨notHash, -, notRegister⟩ := fits.not_mark first (by rw [split]; exact List.mem_cons_self)
  have noColon : ∀ token ∈ (direct none term index?).tokens, token.kind ≠ .colon := by
    intro token member
    have cases : token ∈ term.tokens ∨ token ∈ indexTokens index? := List.mem_append.mp member
    rcases cases with inTerm | inIndex
    · exact (fits.not_mark token inTerm).2.1
    · cases index? with
      | none => cases inIndex
      | some word =>
          rcases List.mem_cons.mp inIndex with rfl | isWord
          · decide
          · obtain rfl := List.mem_singleton.mp isWord
            rw [word.known.2.1]
            decide
  rw [inside_eq_address (isFirst ▸ notHash) (fun isRegister => absurd (isFirst ▸ isRegister)
    notRegister), address_eq, sized, hasSize_eq_false marks ahead noColon,
    if_neg Bool.false_ne_true]

theorem inside_of_sized {word : SizeWord} {index? : Option IndexWord} (gap : draft.trivia = [])
    (ahead : draft.upcoming = (direct (some word) term index?).tokens.intersperse Token.space) :
    inside draft = index .expectedIndexRegister (placed draft.bump.bump) ∧
      Wrote [.leaf word.token, .leaf Token.space, .leaf colon] [] draft draft.bump.bump ∧
        draft.bump.bump.rest = preceded Token.space (term.tokens ++ indexTokens index?) := by
  obtain ⟨alone, isWord, isSize, -⟩ := word.known
  have split : (direct (some word) term index?).tokens = word.token :: colon ::
      (term.tokens ++ indexTokens index?) := rfl
  rw [split, intersperse_cons] at ahead
  have isFirst : draft.peek = word.token.kind := peek_of_upcoming ahead
  have reads : draft.textAt 0 = word.token.text := textAt_of_upcoming ahead
  have wroteWord := wrote_bump ahead
  obtain ⟨isColon, wroteColon, restColon⟩ := wrote_bump_space (Expression.rest_bump ahead) rfl
  have isSecond : draft.kindAt 1 = .colon := (kindAt_succ ahead 0).trans isColon
  have sizes : hasSize draft = true := by
    rcases isWord with isIdent | isRegister
    · simp [hasSize, isFirst, isIdent, isSecond, reads, isSize]
    · simp [hasSize, isFirst, isRegister, isSecond, reads, isSize]
  have notHash : draft.peek ≠ .hash := by
    rw [isFirst]
    rcases isWord with isIdent | isRegister
    · rw [isIdent]
      decide
    · rw [isRegister]
      decide
  rw [gap] at wroteWord
  refine ⟨?_, wroteWord.append wroteColon, restColon⟩
  rw [inside_eq_address notHash (fun _ => by rw [isSecond]; rfl), address_eq, sized, if_pos sizes]

theorem inside_of_enclosed {inner? outer? : Option IndexWord}
    (ahead : draft.upcoming = (enclosed term inner? outer?).tokens.intersperse Token.space) :
    inside draft = index .expectedIndexRegister (placed draft) := by
  have split : (enclosed term inner? outer?).tokens = Term.opening ::
      (term.tokens ++ (indexTokens inner? ++ Term.closing :: indexTokens outer?)) := rfl
  rw [split, intersperse_cons] at ahead
  have isOpening : draft.peek = .leftParen := peek_of_upcoming ahead
  have noSize : hasSize draft = false := by
    rw [hasSize, isOpening]
    rfl
  have isAddress : inside draft = address draft := by rw [inside, isOpening]
  rw [isAddress, address_eq, sized, noSize, if_neg Bool.false_ne_true]

theorem wrote_inside {operand : OperandTerm} (fits : operand.Fits) (plain : draft.role = .plain)
    (gap : draft.trivia = [])
    (ahead : draft.upcoming = operand.tokens.intersperse Token.space) :
    Wrote (Term.spaced operand.parts) [] draft (inside draft) ∧ (inside draft).rest = [] := by
  cases operand with
  | immediate value => exact wrote_immediate fits.address plain gap ahead
  | direct size? term index? =>
      have bare := fits.bare size? term index? rfl
      cases size? with
      | none =>
          obtain ⟨wrote, ended⟩ := wrote_bare fits.address bare plain ahead
          rw [inside_of_unsized fits.address bare ahead]
          rw [gap, map_preceded] at wrote
          refine ⟨?_, ended⟩
          simpa [parts, lead, sizeTokens, trail, OperandTerm.address, Term.spaced,
            intersperse_cons] using wrote
      | some word =>
          obtain ⟨isInside, wroteSize, restSize⟩ := inside_of_sized gap ahead
          have marks : ∀ token ∈ term.tokens ++ indexTokens index?, token.isTrivia = false :=
            fun token member => (fits.standsAlone token
              (List.mem_append_right [word.token, colon] member)).not_isTrivia
          obtain ⟨addressGap, addressAhead⟩ := ahead_of_preceded restSize marks
            (List.append_ne_nil_of_left_ne_nil (fits.address.tokens_ne_nil) _)
          obtain ⟨wrote, ended⟩ :=
            wrote_bare fits.address bare (wroteSize.role.trans plain) addressAhead
          rw [isInside]
          rw [addressGap, map_preceded] at wrote
          refine ⟨?_, ended⟩
          have whole := wroteSize.append wrote
          simpa [parts, lead, sizeTokens, trail, OperandTerm.address, Term.spaced,
            intersperse_cons, preceded] using whole
  | enclosed term inner? outer? =>
      rw [inside_of_enclosed ahead]
      exact wrote_enclosed fits.address plain gap ahead

theorem wrote_read {operand : OperandTerm} (fits : operand.Fits)
    (ahead : draft.upcoming = operand.tokens.intersperse Token.space) :
    Wrote (draft.trivia.map .leaf ++ [operand.written]) [] draft (read draft) ∧
      (read draft).rest = [] := by
  have goesOn : draft.atLineEnd = false := by
    obtain ⟨first, rest, split, notEnd⟩ := fits.exists_first
    rw [split, intersperse_cons] at ahead
    rw [atLineEnd, peek_of_upcoming ahead, notEnd]
  have aheadInside : (draft.enter .plain).upcoming = _ := (upcoming_enter .plain draft).trans ahead
  obtain ⟨wrote, ended⟩ := wrote_inside fits (role_enter .plain draft) (trivia_enter .plain draft)
    aheadInside
  rw [read_eq goesOn]
  exact ⟨wrote_leave wrote operand.spaced_parts_ne_nil .operand, ended⟩

end Operand
end Asm6502
