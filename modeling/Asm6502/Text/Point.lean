import Asm6502.Byte

/-!
# Points

A point is a row and a column, both counted from zero, the column in bytes.
Only a newline starts a new row.
-/

namespace Asm6502

structure Point where
  row : Nat
  column : Nat
deriving DecidableEq, Repr

namespace Point

def next (point : Point) (byte : UInt8) : Point :=
  if byte = Byte.newline then ⟨point.row + 1, 0⟩
  else ⟨point.row, point.column + 1⟩

def atEnd (text : Bytes) : Point :=
  text.foldl next ⟨0, 0⟩

/-- The point at an offset; offsets behind the text count as its end. -/
def ofOffset (text : Bytes) (offset : Nat) : Point :=
  atEnd (text.take offset)

/-- The point at the end of an insertion that starts at `point`. -/
def behind (point : Point) (inserted : Bytes) : Point :=
  let last := atEnd inserted
  if last.row = 0 then ⟨point.row, point.column + last.column⟩
  else ⟨point.row + last.row, last.column⟩

end Point
end Asm6502
