import Asm6502.Byte

/-!
# UTF-8

Decoding never fails: every maximal part that begins like a character but is
none becomes one replacement character.  A text is valid if decoding replaces
nothing.
-/

namespace Asm6502
namespace Utf8

/-- What stands in for undecodable bytes. -/
def replacement : Char := '\ufffd'

def isContinuation (byte : UInt8) : Bool :=
  0x80 ≤ byte && byte ≤ 0xbf

/-- How many bytes a character with this first byte has; none if no character
starts with it. -/
def width? (first : UInt8) : Option Nat :=
  if first ≤ 0x7f then some 1
  else if 0xc2 ≤ first && first ≤ 0xdf then some 2
  else if 0xe0 ≤ first && first ≤ 0xef then some 3
  else if 0xf0 ≤ first && first ≤ 0xf4 then some 4
  else none

/-- Whether a second byte can follow a first one: overlong forms, surrogates
and numbers above the last character are ruled out here. -/
def allowsSecond (first second : UInt8) : Bool :=
  if first == 0xe0 then 0xa0 ≤ second && second ≤ 0xbf
  else if first == 0xed then 0x80 ≤ second && second ≤ 0x9f
  else if first == 0xf0 then 0x90 ≤ second && second ≤ 0xbf
  else if first == 0xf4 then 0x80 ≤ second && second ≤ 0x8f
  else isContinuation second

/-- How many of the bytes after `first` belong to its character, at most
`width - 1`. -/
def tailLength (first : UInt8) (width : Nat) (rest : Bytes) : Nat :=
  match rest with
  | [] => 0
  | second :: others =>
      if width ≤ 1 || !allowsSecond first second then 0
      else ((others.take (width - 2)).takeWhile isContinuation).length + 1

/-- The number that a complete character's bytes spell. -/
def codePoint (first : UInt8) (width : Nat) (tail : Bytes) : Nat :=
  let lead :=
    match width with
    | 1 => first.toNat
    | 2 => first.toNat % 32
    | 3 => first.toNat % 16
    | _ => first.toNat % 8
  tail.foldl (fun number byte => number * 64 + byte.toNat % 64) lead

/-- The character that begins with `first`, none if its bytes are not one, and
how many bytes of `rest` go with it. -/
def next (first : UInt8) (rest : Bytes) : Option Char × Nat :=
  match width? first with
  | none => (none, 0)
  | some width =>
      let count := tailLength first width rest
      if count + 1 = width then
        (some (Char.ofNat (codePoint first width (rest.take count))), count)
      else (none, count)

/-- The characters of a text whose first `skip` bytes have been read. -/
def charsFrom : (skip : Nat) → Bytes → List (Option Char)
  | _, [] => []
  | skip + 1, _ :: rest => charsFrom skip rest
  | 0, first :: rest =>
      let (char?, count) := next first rest
      char? :: charsFrom count rest

/-- Characters, with none for each undecodable part. -/
def chars (text : Bytes) : List (Option Char) :=
  charsFrom 0 text

def decode (text : Bytes) : String :=
  String.ofList ((chars text).map fun char? => char?.getD replacement)

def isValid (text : Bytes) : Bool :=
  (chars text).all Option.isSome

def size (char : Char) : Nat :=
  char.utf8Size

def totalSize : List Char → Nat
  | [] => 0
  | char :: rest => size char + totalSize rest

/-- How many characters lie wholly before a byte offset. -/
def charsBefore : List Char → (offset : Nat) → Nat
  | [], _ => 0
  | char :: rest, offset =>
      if size char ≤ offset then charsBefore rest (offset - size char) + 1
      else 0

end Utf8
end Asm6502
