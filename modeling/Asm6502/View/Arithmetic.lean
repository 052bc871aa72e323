import Asm6502.Byte
import Asm6502.Kind

/-!
# Arithmetic of constants

Constants are 64-bit words in two's complement.  Sums, differences and products
wrap around.  Division truncates; it has no result for a zero divisor and where
the quotient does not fit.  Shifts take amounts from 0 to 63, and shifting to
the right keeps the sign.  Comparisons and logical operators give 0 or 1.
-/

namespace Asm6502
namespace Arithmetic

def ofBool (holds : Bool) : Int64 :=
  if holds then 1 else 0

/-- The low `count` bits of a word from bit `first` on. -/
def field (first count : Nat) (value : Int64) : Int64 :=
  (value >>> Int64.ofNat first) &&& Int64.ofNat ((1 <<< count) - 1)

inductive BinaryOperation where
  | add | subtract | multiply | divide | modulo
  | bitAnd | bitOr | bitXor | shiftLeft | shiftRight
  | equal | unequal | less | greater | lessEqual | greaterEqual
  | logicalAnd | logicalOr | logicalXor
deriving DecidableEq, Repr

namespace BinaryOperation

def dotted : List (Bytes × BinaryOperation) := [
  (Bytes.ascii ".bitand", .bitAnd),
  (Bytes.ascii ".bitor", .bitOr),
  (Bytes.ascii ".bitxor", .bitXor),
  (Bytes.ascii ".mod", .modulo),
  (Bytes.ascii ".shl", .shiftLeft),
  (Bytes.ascii ".shr", .shiftRight),
  (Bytes.ascii ".and", .logicalAnd),
  (Bytes.ascii ".or", .logicalOr),
  (Bytes.ascii ".xor", .logicalXor)]

def ofSign? : Kind → Option BinaryOperation
  | .plus => some .add
  | .minus => some .subtract
  | .star => some .multiply
  | .slash => some .divide
  | .amp => some .bitAnd
  | .pipe => some .bitOr
  | .caret => some .bitXor
  | .shl => some .shiftLeft
  | .shr => some .shiftRight
  | .eq => some .equal
  | .ltGt => some .unequal
  | .lt => some .less
  | .gt => some .greater
  | .ltEq => some .lessEqual
  | .gtEq => some .greaterEqual
  | .amp2 => some .logicalAnd
  | .pipe2 => some .logicalOr
  | _ => none

/-- The operation of an operator word in lower case: a dotted spelling, or the
name of a sign's kind. -/
def ofWord? (word : Bytes) : Option BinaryOperation :=
  match dotted.lookup word with
  | some operation => some operation
  | none =>
      (Kind.all.find? fun kind => Bytes.ascii kind.name == word).bind ofSign?

/-- The operation of an operator token with the given lowercase text. -/
def ofToken? (kind : Kind) (text : Bytes) : Option BinaryOperation :=
  match kind with
  | .dotOpKw => ofWord? text
  | sign => ofSign? sign

/-- A divisor that gives a quotient. -/
def divides (left right : Int64) : Bool :=
  right != 0 && !(left == Int64.minValue && right == -1)

/-- A shift amount that fits the word. -/
def isShift (amount : Int64) : Bool :=
  0 ≤ amount && amount < 64

def result? : BinaryOperation → Int64 → Int64 → Option Int64
  | .add, left, right => some (left + right)
  | .subtract, left, right => some (left - right)
  | .multiply, left, right => some (left * right)
  | .divide, left, right =>
      if divides left right then some (left / right) else none
  | .modulo, left, right =>
      if divides left right then some (left % right) else none
  | .bitAnd, left, right => some (left &&& right)
  | .bitOr, left, right => some (left ||| right)
  | .bitXor, left, right => some (left ^^^ right)
  | .shiftLeft, left, right =>
      if isShift right then some (left <<< right) else none
  | .shiftRight, left, right =>
      if isShift right then some (left >>> right) else none
  | .equal, left, right => some (ofBool (left == right))
  | .unequal, left, right => some (ofBool (left != right))
  | .less, left, right => some (ofBool (left < right))
  | .greater, left, right => some (ofBool (right < left))
  | .lessEqual, left, right => some (ofBool (left ≤ right))
  | .greaterEqual, left, right => some (ofBool (right ≤ left))
  | .logicalAnd, left, right => some (ofBool (left != 0 && right != 0))
  | .logicalOr, left, right => some (ofBool (left != 0 || right != 0))
  | .logicalXor, left, right => some (ofBool ((left != 0) != (right != 0)))

end BinaryOperation

inductive UnaryOperation where
  | plus | negate | complement | lowByte | highByte | bankByte | logicalNot
deriving DecidableEq, Repr

namespace UnaryOperation

def dotted : List (Bytes × UnaryOperation) := [
  (Bytes.ascii ".not", .logicalNot),
  (Bytes.ascii ".bitnot", .complement)]

/-- The operation of an operator token with the given lowercase text. -/
def ofToken? (kind : Kind) (text : Bytes) : Option UnaryOperation :=
  match kind with
  | .plus => some .plus
  | .minus => some .negate
  | .tilde => some .complement
  | .lt => some .lowByte
  | .gt => some .highByte
  | .caret => some .bankByte
  | .bang => some .logicalNot
  | .dotOpKw => dotted.lookup text
  | _ => none

def apply : UnaryOperation → Int64 → Int64
  | .plus, value => value
  | .negate, value => -value
  | .complement, value => ~~~value
  | .lowByte, value => field 0 8 value
  | .highByte, value => field 8 8 value
  | .bankByte, value => field 16 8 value
  | .logicalNot, value => ofBool (value == 0)

end UnaryOperation

/-- Functions of one argument that constants are folded through. -/
inductive ByteFunction where
  | lowByte | highByte | bankByte | lowWord | highWord
deriving DecidableEq, Repr

namespace ByteFunction

/-- Names, in lower case. -/
def names : List (Bytes × ByteFunction) := [
  (Bytes.ascii ".lobyte", .lowByte),
  (Bytes.ascii ".hibyte", .highByte),
  (Bytes.ascii ".bankbyte", .bankByte),
  (Bytes.ascii ".loword", .lowWord),
  (Bytes.ascii ".hiword", .highWord)]

def ofName? (name : Bytes) : Option ByteFunction :=
  names.lookup name

def givesByte : ByteFunction → Bool
  | .lowByte | .highByte | .bankByte => true
  | .lowWord | .highWord => false

def apply : ByteFunction → Int64 → Int64
  | .lowByte, value => field 0 8 value
  | .highByte, value => field 8 8 value
  | .bankByte, value => field 16 8 value
  | .lowWord, value => field 0 16 value
  | .highWord, value => field 16 16 value

end ByteFunction
end Arithmetic
end Asm6502
