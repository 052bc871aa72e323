import Asm6502.Line.Operand
import Asm6502.Proofs.Terms

/-!
# Parentheses of operands

A scan over the kinds of the tokens to come tells whether the parentheses that open an
operand belong to its addressing mode.  The scan passes over whole terms, so it stops
just where these parentheses are closed, or at a comma that no call takes in.
-/

namespace Asm6502

/-- What stands around terms: parentheses, commas and line ends, and the marks and
registers that only operands have. -/
def Kind.isDelimiter : Kind → Bool
  | .leftParen | .rightParen | .comma | .eol | .eof | .hash | .colon | .register => true
  | _ => false

/-- Kinds whose parentheses match.  Commas stand only inside of parentheses, also of
those around all the kinds. -/
inductive Balanced : (inside : Bool) → List Kind → Prop
  | nil {inside : Bool} : Balanced inside []
  | plain {inside : Bool} {kind : Kind} : kind.isDelimiter = false → Balanced inside [kind]
  | comma : Balanced true [.comma]
  | append {inside : Bool} {first second : List Kind} :
      Balanced inside first → Balanced inside second → Balanced inside (first ++ second)
  | enclosed {inside : Bool} {kinds : List Kind} :
      Balanced true kinds → Balanced inside (.leftParen :: (kinds ++ [.rightParen]))

namespace Balanced

variable {inside : Bool} {kinds rest : List Kind}

theorem of_plain (plain : ∀ kind ∈ kinds, kind.isDelimiter = false) : Balanced inside kinds := by
  induction kinds with
  | nil => exact .nil
  | cons kind rest ih =>
      have here : Balanced inside [kind] := .plain (plain kind (by simp))
      exact here.append (ih fun other member => plain other (by simp [member]))

/-- What separates operands from their marks stands nowhere in balanced kinds. -/
theorem not_mark (balanced : Balanced inside kinds) :
    ∀ kind ∈ kinds, kind ≠ .hash ∧ kind ≠ .colon ∧ kind ≠ .register := by
  induction balanced with
  | nil => simp
  | @plain _ kind notDelimiter =>
      rintro kind member
      obtain rfl := List.mem_singleton.mp member
      refine ⟨?_, ?_, ?_⟩
      all_goals
        rintro rfl
        contradiction
  | comma => simp
  | append _ _ first second =>
      intro kind member
      exact (List.mem_append.mp member).elim (first kind) (second kind)
  | enclosed _ ih =>
      intro kind member
      simp only [List.mem_cons, List.mem_append, List.not_mem_nil, or_false] at member
      rcases member with rfl | inner | rfl
      · decide
      · exact ih kind inner
      · decide

end Balanced

namespace Operand

variable {depth : Nat} {inside : Bool} {kind : Kind} {kinds rest : List Kind}

theorem isIndirectAt_opening (depth : Nat) (rest : List Kind) :
    isIndirectAt depth (.leftParen :: rest) = isIndirectAt (depth + 1) rest := by
  rw [isIndirectAt]

theorem isIndirectAt_closing (depth : Nat) (rest : List Kind) :
    isIndirectAt (depth + 2) (.rightParen :: rest) = isIndirectAt (depth + 1) rest := by
  have deep : ¬ depth + 2 ≤ 1 := by omega
  exact if_neg deep

theorem isIndirectAt_plain (plain : kind.isDelimiter = false) (depth : Nat) (rest : List Kind) :
    isIndirectAt depth (kind :: rest) = isIndirectAt depth rest := by
  rw [isIndirectAt]
  all_goals
    rintro rfl
    contradiction

/-- The scan passes over balanced kinds in open parentheses, and over those with commas
in further ones. -/
theorem isIndirectAt_balanced (balanced : Balanced inside kinds) (depth : Nat) (rest : List Kind) :
    isIndirectAt (depth + 1 + inside.toNat) (kinds ++ rest) =
      isIndirectAt (depth + 1 + inside.toNat) rest := by
  induction balanced generalizing depth rest with
  | nil => rfl
  | plain notDelimiter => exact isIndirectAt_plain notDelimiter _ rest
  | comma =>
      change isIndirectAt (depth + 2) (.comma :: rest) = isIndirectAt (depth + 2) rest
      rw [isIndirectAt, if_neg (by omega)]
  | append _ _ first second => rw [List.append_assoc, first, second]
  | @enclosed inside kinds _ ih =>
      have deeper := ih (depth + inside.toNat) (.rightParen :: rest)
      have deep : depth + inside.toNat + 1 + true.toNat = depth + 1 + inside.toNat + 1 := by
        simp only [Bool.toNat_true]
        omega
      have outside : depth + 1 + inside.toNat = depth + inside.toNat + 1 := by omega
      rw [deep] at deeper
      rw [List.cons_append, isIndirectAt_opening, List.append_assoc, List.singleton_append, deeper,
        outside, isIndirectAt_closing]

/-- Behind the parentheses an operator follows, so they only group. -/
theorem isIndirectAt_grouping (balanced : Balanced false kinds)
    (goesOn : kind.isDelimiter = false) (rest : List Kind) :
    isIndirectAt 0 (.leftParen :: (kinds ++ .rightParen :: kind :: rest)) = false := by
  have passed := isIndirectAt_balanced balanced 0 (.rightParen :: kind :: rest)
  rw [isIndirectAt_opening]
  refine passed.trans ?_
  cases kind
  all_goals first | rfl | contradiction

end Operand

namespace Term

variable {dialect : Dialect} {term : Term}

theorem not_isDelimiter_of_accepts {form : Atom} {kind : Kind}
    (accepts : form.accepts kind = true) : kind.isDelimiter = false := by
  cases form with
  | pseudoVariable =>
      simp only [Atom.accepts, Bool.or_eq_true, beq_iff_eq] at accepts
      rcases accepts with rfl | rfl
      all_goals rfl
  | _ =>
      simp only [Atom.accepts, beq_iff_eq] at accepts
      subst accepts
      rfl

theorem not_isDelimiter_of_prefixPower? {kind : Kind} {text : Bytes} {power : Nat}
    (found : Operator.prefixPower? kind text = some power) : kind.isDelimiter = false := by
  unfold Operator.prefixPower? at found
  split at found
  all_goals first | rfl | contradiction

theorem not_isDelimiter_of_infixPower? {kind : Kind} {text : Bytes} {power : Nat}
    (found : Operator.infixPower? kind text = some power) : kind.isDelimiter = false := by
  unfold Operator.infixPower? at found
  split at found
  all_goals first | rfl | contradiction

theorem not_isDelimiter_nameTokens {rooted : Bool} {first : Token} {inner : List Token}
    (words : ∀ word ∈ first :: inner, word.kind = .ident) :
    ∀ token ∈ nameTokens rooted first inner, token.kind.isDelimiter = false := by
  intro token member
  rcases mem_nameTokens member with rfl | isWord
  · rfl
  · rw [words token isWord]
    rfl

theorem balanced_intercalate {lists : List (List Token)}
    (each : ∀ list ∈ lists, Balanced true (list.map Token.kind)) :
    Balanced true ((List.intercalate [comma] lists).map Token.kind) := by
  have isComma : Balanced true ([comma].map Token.kind) := .comma
  have all : ∀ list ∈ lists.intersperse [comma], Balanced true (list.map Token.kind) := by
    intro list member
    rcases mem_intersperse member with rfl | isList
    · exact isComma
    · exact each list isList
  rw [List.intercalate]
  generalize lists.intersperse [comma] = separated at all
  induction separated with
  | nil => exact .nil
  | cons list rest ih =>
      rw [List.flatten_cons, List.map_append]
      exact (all list (by simp)).append (ih fun other member => all other (by simp [member]))

theorem Fits.balanced (fits : term.Fits dialect) (inside : Bool) :
    Balanced inside (term.tokens.map Token.kind) := by
  induction fits generalizing inside with
  | atom accepts => exact .plain (not_isDelimiter_of_accepts accepts)
  | name words =>
      refine .of_plain fun kind member => ?_
      obtain ⟨token, isToken, rfl⟩ := List.mem_map.mp member
      exact not_isDelimiter_nameTokens (fun word isWord => (words word isWord).1) token isToken
  | parens _ ih =>
      rw [tokens, List.map_cons, List.map_append]
      exact .enclosed (ih true)
  | prefixed _ found _ _ ih =>
      have operator := not_isDelimiter_of_prefixPower? found
      exact (Balanced.plain operator).append (ih inside)
  | infixed _ found _ _ _ _ _ first second =>
      have operator := not_isDelimiter_of_infixPower? found
      rw [tokens, List.map_append, List.map_cons]
      exact (first inside).append ((Balanced.plain operator).append (second inside))
  | @call function arguments isFunction _ _ ih =>
      have named : Balanced inside [function.kind] := .plain (by rw [isFunction]; rfl)
      have each : ∀ list ∈ arguments.map tokens, Balanced true (list.map Token.kind) := by
        intro list member
        obtain ⟨argument, argumentIn, rfl⟩ := List.mem_map.mp member
        exact ih argument argumentIn true
      rw [tokens, listTokens_eq_map, List.map_cons, List.map_cons, List.map_append]
      exact named.append (.enclosed (balanced_intercalate each))

theorem Fits.not_mark (fits : term.Fits dialect) :
    ∀ token ∈ term.tokens,
      token.kind ≠ .hash ∧ token.kind ≠ .colon ∧ token.kind ≠ .register :=
  fun _ member => (fits.balanced false).not_mark _ (List.mem_map_of_mem member)

/-- A term that opens with parentheses and does not only consist of them goes on with an
operator behind them. -/
theorem Fits.exists_grouping (fits : term.Fits dialect) (bare : ∀ inner, term ≠ .parens inner)
    {first : Token} {behind : List Token} (split : term.tokens = first :: behind)
    (opens : first.kind = .leftParen) :
    ∃ (inner : Term) (operator : Token) (others : List Token),
      term.tokens = opening :: (inner.tokens ++ closing :: operator :: others) ∧
        inner.Fits dialect ∧ operator.kind.isDelimiter = false := by
  have notPlain : first.kind.isDelimiter ≠ false := by
    rw [opens]
    decide
  induction fits generalizing behind with
  | atom accepts =>
      obtain ⟨rfl, -⟩ := List.cons.inj split
      exact absurd (not_isDelimiter_of_accepts accepts) notPlain
  | name words =>
      have plain := not_isDelimiter_nameTokens (fun word member => (words word member).1) first
        (by rw [← tokens, split]; exact List.mem_cons_self)
      exact absurd plain notPlain
  | @parens inner => exact absurd rfl (bare inner)
  | prefixed _ found =>
      obtain ⟨rfl, -⟩ := List.cons.inj split
      exact absurd (not_isDelimiter_of_prefixPower? found) notPlain
  | @infixed left right operator _ _ found _ _ _ fits _ ih =>
      have goesOn := not_isDelimiter_of_infixPower? found
      by_cases grouped : ∃ inner, left = .parens inner
      · obtain ⟨inner, rfl⟩ := grouped
        cases fits with
        | parens fits => exact ⟨inner, operator, right.tokens, by simp [tokens], fits, goesOn⟩
      · obtain ⟨leftFirst, leftBehind, leftSplit, -⟩ := fits.exists_first
        have same : leftFirst = first := by
          rw [tokens, leftSplit] at split
          exact (List.cons.inj split).1
        obtain ⟨inner, leftOperator, others, whole, innerFits, notDelimiter⟩ :=
          ih (fun inner isParens => grouped ⟨inner, isParens⟩) (same ▸ leftSplit)
        exact ⟨inner, leftOperator, others ++ operator :: right.tokens,
          by simp [tokens, whole], innerFits, notDelimiter⟩
  | call isFunction =>
      obtain ⟨rfl, -⟩ := List.cons.inj split
      rw [isFunction] at opens
      contradiction

end Term

namespace Operand

variable {dialect : Dialect} {term : Term} {first : Token} {behind : List Token}
  {kinds rest : List Kind}

/-- The parentheses at the start of an address group, unless they enclose all of it. -/
theorem isIndirectAt_bare (fits : term.Fits dialect) (bare : ∀ inner, term ≠ .parens inner)
    (split : term.tokens = first :: behind) (opens : first.kind = .leftParen)
    (rest : List Kind) : isIndirectAt 0 (term.tokens.map Token.kind ++ rest) = false := by
  obtain ⟨inner, operator, others, whole, innerFits, goesOn⟩ :=
    fits.exists_grouping bare split opens
  have grouping := isIndirectAt_grouping (innerFits.balanced false) goesOn
    (others.map Token.kind ++ rest)
  rw [whole]
  simpa [Term.opening, Term.closing] using grouping

/-- Parentheses around a whole address belong to the addressing mode, where nothing or an
index follows them or an index stands in them. -/
theorem isIndirectAt_enclosed (fits : term.Fits dialect)
    (closes : isIndirectAt 1 rest = true) :
    isIndirectAt 0 (.leftParen :: (term.tokens.map Token.kind ++ rest)) = true := by
  have passed := isIndirectAt_balanced (fits.balanced false) 0 rest
  rw [isIndirectAt_opening]
  exact passed.trans closes

end Operand
end Asm6502
