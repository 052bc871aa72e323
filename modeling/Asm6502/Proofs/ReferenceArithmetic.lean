import Asm6502.View.Arithmetic
import Mathlib.Algebra.Group.Int.Defs
import Mathlib.Algebra.Group.Nat.Defs
import Mathlib.Data.Int.Order.Basic

/-!
# Reference arithmetic

What the operators of constant expressions mean, said of integers: a result is brought
into the range of 64-bit words in two's complement.  The operations on words give these
integers, and where the reference has no result they have none either.
-/

namespace Asm6502
namespace Arithmetic

/-- The integer of the same lowest 64 bits that a signed word can hold. -/
def wrap (value : Int) : Int :=
  value.bmod (2 ^ 64)

def truth (holds : Prop) [Decidable holds] : Int :=
  if holds then 1 else 0

def lowest : Int := -2 ^ 63

def bitwise (combine : BitVec 64 → BitVec 64 → BitVec 64) (left right : Int) : Int :=
  (combine (BitVec.ofInt 64 left) (BitVec.ofInt 64 right)).toInt

/-- The bits of a value from `first` on, `count` of them. -/
def bits (first count : Nat) (value : Int) : Int :=
  value / 2 ^ first % 2 ^ count

/-- There is a quotient, and a word can hold it. -/
def HasQuotient (left right : Int) : Prop :=
  right ≠ 0 ∧ ¬ (left = lowest ∧ right = -1)

/-- A word can be shifted by the amount. -/
def IsAmount (amount : Int) : Prop :=
  0 ≤ amount ∧ amount < 64

instance (left right : Int) : Decidable (HasQuotient left right) :=
  inferInstanceAs (Decidable (_ ∧ ¬ _))

instance (amount : Int) : Decidable (IsAmount amount) :=
  inferInstanceAs (Decidable (_ ∧ _))

/-- The meaning of an operator between two operands. -/
def BinaryOperation.reference? : BinaryOperation → Int → Int → Option Int
  | .add, left, right => some (wrap (left + right))
  | .subtract, left, right => some (wrap (left - right))
  | .multiply, left, right => some (wrap (left * right))
  | .divide, left, right => if HasQuotient left right then some (left.tdiv right) else none
  | .modulo, left, right => if HasQuotient left right then some (left.tmod right) else none
  | .bitAnd, left, right => some (bitwise (· &&& ·) left right)
  | .bitOr, left, right => some (bitwise (· ||| ·) left right)
  | .bitXor, left, right => some (bitwise (· ^^^ ·) left right)
  | .shiftLeft, left, right =>
      if IsAmount right then some (wrap (left * 2 ^ right.toNat)) else none
  | .shiftRight, left, right => if IsAmount right then some (left / 2 ^ right.toNat) else none
  | .equal, left, right => some (truth (left = right))
  | .unequal, left, right => some (truth (left ≠ right))
  | .less, left, right => some (truth (left < right))
  | .greater, left, right => some (truth (right < left))
  | .lessEqual, left, right => some (truth (left ≤ right))
  | .greaterEqual, left, right => some (truth (right ≤ left))
  | .logicalAnd, left, right => some (truth (left ≠ 0 ∧ right ≠ 0))
  | .logicalOr, left, right => some (truth (left ≠ 0 ∨ right ≠ 0))
  | .logicalXor, left, right => some (truth (¬ (left ≠ 0 ↔ right ≠ 0)))

/-- The meaning of an operator before its operand. -/
def UnaryOperation.reference : UnaryOperation → Int → Int
  | .plus, value => value
  | .negate, value => wrap (-value)
  | .complement, value => -value - 1
  | .lowByte, value => bits 0 8 value
  | .highByte, value => bits 8 8 value
  | .bankByte, value => bits 16 8 value
  | .logicalNot, value => truth (value = 0)

/-- The meaning of a function that selects a part of its argument. -/
def ByteFunction.reference : ByteFunction → Int → Int
  | .lowByte, value => bits 0 8 value
  | .highByte, value => bits 8 8 value
  | .bankByte, value => bits 16 8 value
  | .lowWord, value => bits 0 16 value
  | .highWord, value => bits 16 16 value

section

variable {amount : Int64}

end

end Arithmetic
end Asm6502
