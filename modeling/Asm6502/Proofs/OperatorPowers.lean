import Asm6502.Proofs.TextPlaces
import Asm6502.View.Expression

/-!
# Operator precedence in every tree

Whatever a text is, the operations in its tree nest as the powers of their operators
ask for: looser operators stand around tighter ones, equal ones associate to the
left, and a logical negation has nothing to its right that it does not take in.
-/

namespace Asm6502

open List (Forall₂)
open Written Place

namespace View.Expression

def power? (source : Bytes) (place : Place) : Option Nat :=
  if place.kind = .binaryExpr then
    (infixOperator? place).bind fun operator =>
      Operator.infixPower? operator.kind (operator.bytes source)
  else none

def IsNegation (source : Bytes) (place : Place) : Prop :=
  place.kind = .unaryExpr ∧
    ∃ operator, prefixOperator? place = some operator ∧
      Operator.prefixPower? operator.kind (operator.bytes source) =
        some Operator.negationPower

/-- A negation stands here or is reached over last operands. -/
inductive EndsInNegation (source : Bytes) : Place → Prop
  | here {place : Place} : IsNegation source place → EndsInNegation source place
  | last {place child : Place} :
      place.kind = .binaryExpr ∨ place.kind = .unaryExpr →
        place.children.getLast? = some child → EndsInNegation source child →
          EndsInNegation source place

/-- An operation nests with others as their powers ask for. -/
structure RespectsPowers (source : Bytes) (place : Place) : Prop where
  binary : place.isNode = true → place.kind = .binaryExpr →
    ∃ left gap operator behind power,
      place.children = left :: (gap ++ operator :: behind) ∧ left.isNode = true ∧
        (∀ token ∈ gap, token.isTrivia = true) ∧ operator.isToken = true ∧
          Operator.infixPower? operator.kind (operator.bytes source) = some power ∧
            power? source place = some power ∧ 2 ≤ power ∧ power ≤ 6 ∧
              (left.kind = .binaryExpr →
                ∃ inner, power? source left = some inner ∧ power ≤ inner) ∧
                ¬ EndsInNegation source left ∧
                  ∀ child ∈ behind, child.isNode = true → child.kind = .binaryExpr →
                    ∃ inner, power? source child = some inner ∧ power < inner
  unary : place.isNode = true → place.kind = .unaryExpr →
    ∃ operator behind power,
      place.children = operator :: behind ∧ operator.isToken = true ∧
        Operator.prefixPower? operator.kind (operator.bytes source) = some power ∧
          (power ≠ Operator.negationPower →
            ∀ child ∈ behind, child.isNode = true → child.kind ≠ .binaryExpr)

end View.Expression

theorem Written.power?_lt {written : Written} {power : Nat}
    (found : written.power? = some power) : power < Operator.tightPower := by
  unfold Written.power? at found
  split at found
  · obtain ⟨operator, -, isOperator⟩ := Option.bind_eq_some_iff.mp found
    exact (Expression.infixPower?_bounds isOperator).2
  · contradiction

namespace Place

open View.Expression

variable {root written : Written} {place : Place}

theorem Occurs.power? (occurs : Occurs root place written) :
    View.Expression.power? root.bytes place = written.power? := by
  have operators := map_find?_isToken (forall₂_significant occurs.forall₂_children)
  rw [View.Expression.power?, Written.power?, occurs.kind]
  split
  · calc
      _ = ((infixOperator? place).map (Place.pair root.bytes)).bind fun operator =>
            Operator.infixPower? operator.1 operator.2 := by
        rw [Option.bind_map]
        rfl
      _ = (written.infixToken?.map fun token => (token.kind, token.text)).bind fun operator =>
            Operator.infixPower? operator.1 operator.2 := congrArg (Option.bind · _) operators
      _ = _ := by
        rw [Option.bind_map]
        rfl
  · rfl

theorem Occurs.prefixToken? (occurs : Occurs root place written) :
    (prefixOperator? place).map (Place.pair root.bytes) =
      written.prefixToken?.map fun token => (token.kind, token.text) :=
  map_head?_isToken (forall₂_significant occurs.forall₂_children)

theorem Occurs.isNegation (occurs : Occurs root place written)
    (negation : IsNegation root.bytes place) : written.IsNegation := by
  obtain ⟨isUnary, operator, isOperator, negates⟩ := negation
  have operators := occurs.prefixToken?
  rw [isOperator] at operators
  obtain ⟨token, isToken, same⟩ := Option.map_eq_some_iff.mp operators.symm
  obtain ⟨kinds, texts⟩ := Prod.mk.inj same
  refine ⟨occurs.kind.symm.trans isUnary, token, isToken, ?_⟩
  rw [kinds, texts]
  exact negates

theorem Occurs.endsInNegation (occurs : Occurs root place written)
    (ends : View.Expression.EndsInNegation root.bytes place) : written.EndsInNegation := by
  induction ends generalizing written with
  | here negation => exact .here (occurs.isNegation negation)
  | last operation last _ ih =>
      obtain ⟨part, lastPart, occursIn⟩ :=
        exists_occurs_getLast? occurs.forall₂_children last
      rw [occurs.kind] at operation
      cases written with
      | leaf => contradiction
      | node => exact .last operation lastPart (ih occursIn)

theorem Occurs.infixShape {dialect : Dialect} (occurs : Occurs root place written)
    (formed : written.Formed dialect) (isNode : place.isNode = true)
    (isBinary : place.kind = .binaryExpr) :
    ∃ power, InfixShape power written.children ∧
      View.Expression.power? root.bytes place = some power := by
  rw [occurs.isNode] at isNode
  rw [occurs.kind] at isBinary
  cases formed with
  | leaf => contradiction
  | node _ shape _ =>
      obtain rfl : _ = Kind.binaryExpr := isBinary
      obtain ⟨⟨power, infixShape⟩, -⟩ := shape
      exact ⟨power, infixShape, occurs.power?.trans infixShape.power?⟩

/-- The power of an operand is known, and it is as its surroundings ask for. -/
theorem Occurs.exists_power? {dialect : Dialect} (occurs : Occurs root place written)
    (standing : Standing dialect written) {fits : Nat → Prop}
    (asked : ∀ inner, written.power? = some inner → fits inner)
    (isNode : place.isNode = true) (isBinary : place.kind = .binaryExpr) :
    ∃ inner, View.Expression.power? root.bytes place = some inner ∧ fits inner := by
  have formed := standing.formed (by rw [← occurs.kind, isBinary]; rfl)
  obtain ⟨power, -, found⟩ := occurs.infixShape formed isNode isBinary
  exact ⟨power, found, asked power (occurs.power?.symm.trans found)⟩

theorem Occurs.respectsPowers {dialect : Dialect} (occurs : Occurs root place written)
    (standing : Standing dialect written) : RespectsPowers root.bytes place where
  binary isNode isBinary := by
    have formed := standing.formed (by rw [← occurs.kind, isBinary]; rfl)
    obtain ⟨power, shape, power?Eq⟩ := occurs.infixShape formed isNode isBinary
    have children := occurs.forall₂_children
    have below : ∀ part ∈ written.children, Standing dialect part :=
      fun part member => standing.child member
    generalize written.children = parts at shape children below
    obtain ⟨leftIsNode, notLooser, closed, trivial, -, found, tighter⟩ := shape
    rename_i leftPart gap token behindParts
    obtain ⟨left, rest, leftOccurs, restOccurs, split⟩ :=
      List.forall₂_cons_right_iff.mp children
    obtain ⟨before, operator, behind, rfl, gapOccurs, here, late⟩ :=
      exists_split_of_forall₂ restOccurs
    obtain ⟨kinds, texts⟩ := Prod.mk.inj here.pair
    have isOperator : Operator.infixPower? operator.kind
        (operator.bytes root.bytes) = some power := by
      rw [kinds, texts, found]
    have bounds := Expression.infixPower?_bounds found
    have leftNode : left.isNode = true := by
      rw [leftOccurs.isNode, leftIsNode]
      rfl
    refine ⟨left, before, operator, behind, power, split, leftNode, ?_, here.isToken,
      isOperator, power?Eq, bounds.1, Nat.le_of_lt_succ bounds.2, ?_, ?_, ?_⟩
    · intro other member
      obtain ⟨part, partIn, occursIn⟩ := exists_occurs_of_mem gapOccurs member
      obtain ⟨trivia, isGap, rfl⟩ := List.mem_map.mp partIn
      rw [occursIn.isTrivia]
      exact trivial trivia isGap
    · exact leftOccurs.exists_power? (below _ (by simp)) notLooser leftNode
    · exact fun ends => closed (leftOccurs.endsInNegation ends)
    · intro child member
      obtain ⟨part, partIn, occursIn⟩ := exists_occurs_of_mem late member
      exact occursIn.exists_power? (below _ (by simp [partIn])) (tighter part partIn)
  unary isNode isUnary := by
    have formed := standing.formed (by rw [← occurs.kind, isUnary]; rfl)
    have children := occurs.forall₂_children
    have below : ∀ part ∈ written.children, Standing dialect part :=
      fun part member => standing.child member
    rw [occurs.isNode] at isNode
    rw [occurs.kind] at isUnary
    cases formed with
    | leaf => contradiction
    | node _ shape _ =>
        obtain rfl : _ = Kind.unaryExpr := isUnary
        obtain ⟨⟨power, shape⟩, -⟩ := shape
        change Forall₂ _ _ _ at children
        obtain ⟨significant, found, tighter⟩ := shape
        rename_i token behindParts
        obtain ⟨operator, behind, here, late, split⟩ :=
          List.forall₂_cons_right_iff.mp children
        obtain ⟨kinds, texts⟩ := Prod.mk.inj here.pair
        refine ⟨operator, behind, power, split, here.isToken, ?_, ?_⟩
        · rw [kinds, texts, found]
        · intro notLoosest child member childIsNode isBinary
          obtain ⟨part, partIn, occursIn⟩ := exists_occurs_of_mem late member
          -- The operand would have to bind tighter than the tightest operator.
          have tightest := (Expression.prefixPower?_cases found).resolve_left notLoosest
          obtain ⟨inner, -, tooTight, notTighter⟩ := occursIn.exists_power?
            (below _ (by simp [Written.children, partIn]))
            (fun inner isPower => And.intro (tighter part partIn inner isPower)
              (power?_lt isPower))
            childIsNode isBinary
          omega

end Place

namespace Parse

/-- All operations in the tree nest as the powers of their operators ask for. -/
def RespectsPowers (text : Bytes) (parse : Parse) : Prop :=
  ∀ place ∈ parse.places, View.Expression.RespectsPowers text place

/-- Every operation in the tree of a text, however faulty, respects the powers of the
operators. -/
theorem ofText_respects_powers (dialect : Dialect) (text : Bytes) :
    (ofText dialect text).RespectsPowers text := by
  rcases ofText_cases dialect text with ⟨-, read⟩ | ⟨-, refused⟩
  case inr =>
    intro place member
    rw [refused] at member
    have kind := kind_of_mem_places_rejected member
    exact ⟨fun _ isBinary => by simp [kind] at isBinary, fun _ isUnary => by simp [kind] at isUnary⟩
  obtain ⟨settled, tail, reports, writtenAs⟩ := exists_writtenAs dialect text
  intro place member
  rw [read, places, writtenAs.root] at member
  obtain ⟨written, occurs⟩ := exists_occurs_of_mem_preorder member
  rw [← writtenAs.bytes]
  exact occurs.respectsPowers (occurs.standing writtenAs.standing)

end Parse
end Asm6502
