/-!
# Rows of characters

A row is filled by writing texts at columns, one character to a column.  What
stood there is overwritten, and a gap in front is filled with spaces.
-/

namespace Asm6502
namespace Row

def spaces (count : Nat) : List Char :=
  List.replicate count ' '

def write (column : Nat) (text row : List Char) : List Char :=
  if text.isEmpty then row
  else
    row.take column ++ spaces (column - row.length) ++ text ++
      row.drop (column + text.length)

end Row
end Asm6502
