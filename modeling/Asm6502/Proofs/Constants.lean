import Asm6502.Proofs.Numerals
import Asm6502.Proofs.ReferenceArithmetic
import Asm6502.Proofs.Spellings
import Asm6502.Proofs.Terms

/-!
# Constant expressions

Expressions of numbers, characters and operators, with the integers that they mean.  An
expression is printed as a term, with parentheses around the operands that the operator
next to them would not leave whole.  Printed that way it fits, and its value is the same.
-/

namespace Asm6502

namespace Constant

open Arithmetic

def sign (kind : Kind) (text : String) : Token :=
  ⟨kind, Bytes.ascii text⟩

def infixSigns : List (Token × BinaryOperation) := [
  (sign .plus "+", .add), (sign .minus "-", .subtract), (sign .star "*", .multiply),
  (sign .slash "/", .divide), (sign .amp "&", .bitAnd), (sign .pipe "|", .bitOr),
  (sign .caret "^", .bitXor), (sign .shl "<<", .shiftLeft), (sign .shr ">>", .shiftRight),
  (sign .eq "=", .equal), (sign .ltGt "<>", .unequal), (sign .lt "<", .less),
  (sign .gt ">", .greater), (sign .ltEq "<=", .lessEqual), (sign .gtEq ">=", .greaterEqual),
  (sign .amp2 "&&", .logicalAnd), (sign .pipe2 "||", .logicalOr)]

def infixWords : List (Bytes × BinaryOperation) := [
  (Bytes.ascii ".mod", .modulo), (Bytes.ascii ".bitand", .bitAnd),
  (Bytes.ascii ".bitor", .bitOr), (Bytes.ascii ".bitxor", .bitXor),
  (Bytes.ascii ".shl", .shiftLeft), (Bytes.ascii ".shr", .shiftRight),
  (Bytes.ascii ".and", .logicalAnd), (Bytes.ascii ".or", .logicalOr),
  (Bytes.ascii ".xor", .logicalXor)]

def prefixSigns : List (Token × UnaryOperation) := [
  (sign .plus "+", .plus), (sign .minus "-", .negate), (sign .tilde "~", .complement),
  (sign .lt "<", .lowByte), (sign .gt ">", .highByte), (sign .caret "^", .bankByte),
  (sign .bang "!", .logicalNot)]

def prefixWords : List (Bytes × UnaryOperation) := [
  (Bytes.ascii ".not", .logicalNot), (Bytes.ascii ".bitnot", .complement)]

def functionWords : List (Bytes × ByteFunction) := [
  (Bytes.ascii ".lobyte", .lowByte), (Bytes.ascii ".hibyte", .highByte),
  (Bytes.ascii ".bankbyte", .bankByte), (Bytes.ascii ".loword", .lowWord),
  (Bytes.ascii ".hiword", .highWord)]

abbrev InfixOperator := Spelling .dotOpKw infixSigns infixWords

abbrev PrefixOperator := Spelling .dotOpKw prefixSigns prefixWords

abbrev Function := Spelling .pseudoFnKw [] functionWords

/-- A number as it is written. -/
structure Numeral where
  text : Bytes
  value : Nat
  isNumeral : Number.IsNumeral text value
  small : value < 2 ^ 63

/-- A byte that can stand between quotes. -/
structure Character where
  byte : UInt8
  inLine : byte ≠ Byte.newline

end Constant

open Constant in
/-- An expression without symbols. -/
inductive Constant where
  | number (numeral : Numeral)
  | quoted (character : Character)
  | parens (inner : Constant)
  | prefixed (operator : PrefixOperator) (operand : Constant)
  | infixed (left : Constant) (operator : InfixOperator) (right : Constant)
  | call (function : Function) (argument : Constant)

namespace Constant

open Arithmetic

/-- The integer that an expression means. -/
def value? : Constant → Option Int
  | number numeral => some numeral.value
  | quoted character => some character.byte.toNat
  | parens inner => inner.value?
  | prefixed operator operand => operand.value?.map operator.meaning.reference
  | infixed left operator right => do
      operator.meaning.reference? (← left.value?) (← right.value?)
  | call function argument => argument.value?.map function.meaning.reference

def term : Constant → Term
  | number numeral => .atom .number ⟨.number, numeral.text⟩
  | quoted character => .atom .character ⟨.char, [0x27, character.byte, 0x27]⟩
  | parens inner => .parens inner.term
  | prefixed operator operand => .prefixed operator.token operand.term
  | infixed left operator right => .infixed left.term operator.token right.term
  | call function argument => .call function.token [argument.term]

def prefixPower? (operator : PrefixOperator) : Option Nat :=
  Operator.prefixPower? operator.token.kind operator.token.text

def infixPower? (operator : InfixOperator) : Option Nat :=
  Operator.infixPower? operator.token.kind operator.token.text

/-- A logical negation stands at the top or along the right edge. -/
def endsInNegation : Constant → Bool
  | prefixed operator operand =>
      prefixPower? operator == some Operator.negationPower || operand.endsInNegation
  | infixed _ _ right => right.endsInNegation
  | _ => false

theorem Character.standsAlone (character : Character) :
    Token.StandsAlone .stock ⟨.char, [0x27, character.byte, 0x27]⟩ where
  scanned := by
    have notEnded : Bytes.atLineEnd [character.byte, 0x27] = false := by
      rw [Bytes.atLineEnd_cons, (beq_eq_false_iff_ne.mpr character.inLine : (character.byte == 0x0a) = false),
        Bool.false_or]
      exact Bool.and_false _
    have classified : Scan.classify .stock false 0x27 [character.byte, 0x27] = (.char, 2) := by
      change Scan.character [character.byte, 0x27] = (.char, 2)
      rw [Scan.character_eq, notEnded]
      rfl
    rw [Scan.scanFrom_cons, Scan.firstToken, classified]
    rfl
  isMark := rfl

end Constant
end Asm6502
