import Asm6502.Byte

/-!
# Numbers

Numbers are written with a leading `$` in hexadecimal or `%` in binary digits,
with a trailing `h` in hexadecimal digits, or in plain decimal digits.  A number
must be below two to the power of 63.
-/

namespace Asm6502
namespace Number

def digit? (byte : UInt8) : Option Nat :=
  if Byte.isDigit byte then some (byte.toNat - 0x30)
  else if Byte.isHexDigit byte then some ((Byte.lower byte).toNat - 0x61 + 10)
  else none

def append? (radix number : Nat) (byte : UInt8) : Option Nat :=
  match digit? byte with
  | some digit =>
      if digit < radix then some (number * radix + digit) else none
  | none => none

def digits? (radix : Nat) (digits : Bytes) : Option Nat :=
  if digits.isEmpty then none
  else digits.foldlM (append? radix) 0

def notationOf (text : Bytes) : Nat × Bytes :=
  match text with
  | 0x24 :: digits => (16, digits)
  | 0x25 :: digits => (2, digits)
  | _ =>
      if text.getLast?.any fun byte => Byte.lower byte == 0x68 then
        (16, text.dropLast)
      else (10, text)

/-- Two to the power of 63: numbers from here on are too large. -/
def bound : Nat := 0x8000000000000000

/-- The value of a written number. -/
def parse? (text : Bytes) : Option Int64 :=
  let (radix, digits) := notationOf text
  match digits? radix digits with
  | some value =>
      if value < bound then some (Int64.ofNat value) else none
  | none => none

end Number
end Asm6502
