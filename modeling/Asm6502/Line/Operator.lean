import Asm6502.Byte
import Asm6502.Kind

/-!
# Operators

How tightly operators bind, from the loosest to the tightest: logical negation
(1), or (2), and (3), comparisons (4), additive (5), multiplicative (6), and
every other prefix operator (7).  Dotted operators are looked up by their
spelling, ignoring case.
-/

namespace Asm6502
namespace Operator

/-- Prefix operators other than logical negation. -/
def tightPower : Nat := 7

/-- Logical negation takes everything to its right. -/
def negationPower : Nat := 1

def dottedPrefixes : List (Bytes × Nat) := [
  (Bytes.ascii ".bitnot", tightPower),
  (Bytes.ascii ".not", negationPower)]

def dottedInfixes : List (Bytes × Nat) := [
  (Bytes.ascii ".mod", 6),
  (Bytes.ascii ".bitand", 6),
  (Bytes.ascii ".bitxor", 6),
  (Bytes.ascii ".shl", 6),
  (Bytes.ascii ".shr", 6),
  (Bytes.ascii ".bitor", 5),
  (Bytes.ascii ".and", 3),
  (Bytes.ascii ".xor", 3),
  (Bytes.ascii ".or", 2)]

def prefixPower? (kind : Kind) (text : Bytes) : Option Nat :=
  match kind with
  | .plus | .minus | .tilde | .lt | .gt | .caret => some tightPower
  | .bang => some negationPower
  | .dotOpKw => dottedPrefixes.lookup (Bytes.lower text)
  | _ => none

def infixPower? (kind : Kind) (text : Bytes) : Option Nat :=
  match kind with
  | .star | .slash | .amp | .caret | .shl | .shr => some 6
  | .plus | .minus | .pipe => some 5
  | .eq | .ltGt | .lt | .gt | .ltEq | .gtEq => some 4
  | .amp2 => some 3
  | .pipe2 => some 2
  | .dotOpKw => dottedInfixes.lookup (Bytes.lower text)
  | _ => none

end Operator
end Asm6502
