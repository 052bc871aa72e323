import Asm6502.Text.Point
import Asm6502.Text.Utf8

/-!
# Source files

A file that has been loaded: its path and its bytes.
-/

namespace Asm6502

structure SourceFile where
  path : String
  text : Bytes
deriving DecidableEq, Repr

namespace SourceFile

/-- The text for display, undecodable bytes replaced. -/
def displayText (file : SourceFile) : String :=
  Utf8.decode file.text

def isValid (file : SourceFile) : Bool :=
  Utf8.isValid file.text

/-- An offset inside a character, rather than before or behind it. -/
def splitsCharacter (file : SourceFile) (offset : Nat) : Bool :=
  file.text[offset]?.any Utf8.isContinuation && file.isValid

/-- Row and byte column of an offset.  In valid text there is none inside a
character. -/
def point? (file : SourceFile) (offset : Nat) : Option Point :=
  if file.splitsCharacter offset then none
  else some (Point.ofOffset file.text offset)

end SourceFile
end Asm6502
