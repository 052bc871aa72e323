/-!
# Bytes and their classes

Source text is a list of bytes: it need not be valid UTF-8.  Every character
class of the assembler is a class of ASCII bytes, so a byte of 128 or more
belongs to none of them.
-/

namespace Asm6502

/-- Source text. -/
abbrev Bytes := List UInt8

namespace Byte

def isUpper (byte : UInt8) : Bool :=
  0x41 ≤ byte && byte ≤ 0x5a

def isLower (byte : UInt8) : Bool :=
  0x61 ≤ byte && byte ≤ 0x7a

def isDigit (byte : UInt8) : Bool :=
  0x30 ≤ byte && byte ≤ 0x39

def isBinaryDigit (byte : UInt8) : Bool :=
  byte == 0x30 || byte == 0x31

def isHexDigit (byte : UInt8) : Bool :=
  isDigit byte || (0x41 ≤ byte && byte ≤ 0x46) || (0x61 ≤ byte && byte ≤ 0x66)

def startsWord (byte : UInt8) : Bool :=
  isUpper byte || isLower byte || byte == 0x5f

def continuesWord (byte : UInt8) : Bool :=
  startsWord byte || isDigit byte

/-- Space, tab, vertical tab, form feed and carriage return. -/
def isBlank (byte : UInt8) : Bool :=
  byte == 0x20 || byte == 0x09 || byte == 0x0b || byte == 0x0c || byte == 0x0d

/-- The byte as a character of the same number, to name ASCII bytes by. -/
def char (byte : UInt8) : Char :=
  Char.ofNat byte.toNat

def newline : UInt8 := 0x0a

def carriageReturn : UInt8 := 0x0d

/-- ASCII letters in lower case, every other byte unchanged. -/
def lower (byte : UInt8) : UInt8 :=
  if isUpper byte then byte + 32 else byte

end Byte

namespace Bytes

def ascii (text : String) : Bytes :=
  text.toList.map fun char => char.toNat.toUInt8

def lower (text : Bytes) : Bytes :=
  text.map Byte.lower

/-- A line ends here: at a newline, or at a carriage return before one. -/
def atLineEnd : Bytes → Bool
  | 0x0a :: _ => true
  | 0x0d :: 0x0a :: _ => true
  | _ => false

/-- How many bytes stand before the end of the line or of the text. -/
def lineLength : Bytes → Nat
  | [] => 0
  | byte :: rest =>
      if atLineEnd (byte :: rest) then 0 else lineLength rest + 1

def hasAtLeast : (count : Nat) → Bytes → Bool
  | 0, _ => true
  | _ + 1, [] => false
  | count + 1, _ :: rest => hasAtLeast count rest

def slice (text : Bytes) (start stop : Nat) : Bytes :=
  (text.drop start).take (stop - start)

end Bytes
end Asm6502
