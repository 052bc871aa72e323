import Asm6502.Text.Row
import Asm6502.Text.Utf8
import Asm6502.Text.Width

/-!
# Margins

A line that is too long, or that stands behind much white space, is shown in
part.  The part is chosen around the marked span, and dots stand where the line
was cut.
-/

namespace Asm6502

/-- What a margin has to take in, in columns from the start of the line. -/
structure Extent where
  /-- The white space in front of every line that has anything else on it. -/
  indent : Nat
  /-- The first column of the span. -/
  start : Nat
  /-- The column behind the span. -/
  stop : Nat
  /-- The column behind the label of the span. -/
  labelStop : Nat
  /-- The length of the longest line in bytes. -/
  longest : Nat
deriving DecidableEq, Repr

namespace Extent

/-- The white space in front of lines that have nothing else on them: more than
any line has. -/
def unlimited : Nat := 0xffffffffffffffff

/-- Columns kept free on either side for the dots. -/
def slack : Nat := 6

/-- The extent with space for dots around the span and the label. -/
def withSlack (extent : Extent) : Extent :=
  { extent with
    indent := extent.indent - slack
    start := extent.start - slack
    stop := extent.stop + slack
    labelStop := extent.labelStop + slack }

end Extent

/-- The part of a line that is shown, if there is room for some columns only. -/
structure Margin where
  /-- The columns that there is room for. -/
  room : Nat
  /-- The first column shown. -/
  first : Nat
  /-- The column behind the last one shown. -/
  last : Nat
  /-- Lines that end behind this column are marked as cut. -/
  limit : Nat
deriving DecidableEq, Repr

namespace Margin

/-- White space up to this many columns is not worth a cut. -/
def longIndent : Nat := 20

/-- White space left in front of a line that was cut for its white space. -/
def keptIndent : Nat := 4

/-- The first and the last column shown of lines that have the given extent,
slack included. -/
def bounds (room : Nat) (extent : Extent) : Nat × Nat :=
  let first :=
    if longIndent < extent.indent then extent.indent - (longIndent - keptIndent)
    else 0
  let last := max extent.longest first
  if last - first ≤ room then (first, last)
  else if extent.labelStop - extent.indent ≤ room then
    (extent.indent, extent.indent + room)
  else if extent.labelStop - extent.start ≤ room then
    let first :=
      extent.start - (room - (extent.labelStop - extent.start)) / 2
    (first, first + room)
  else if extent.stop - extent.start ≤ room then
    let first := extent.start - (room - (extent.stop - extent.start)) / 5 * 2
    (first, first + room)
  else (extent.start, extent.stop)

def ofExtent (room : Nat) (extent : Extent) : Margin :=
  let extent := extent.withSlack
  let (first, last) := bounds room extent
  { room, first, last
    limit :=
      if last = extent.stop || last = extent.labelStop then last - Extent.slack
      else last }

def left (margin : Margin) (length : Nat) : Nat :=
  min margin.first length

def right (margin : Margin) (length : Nat) : Nat :=
  if length - margin.first ≤ margin.room then length
  else min length margin.last

def cutsLeft (margin : Margin) : Bool :=
  0 < margin.first

def cutsRight (margin : Margin) (length : Nat) : Bool :=
  margin.limit < length && margin.first + margin.room < length

def dots : List Char := ['.', '.', '.']

/-- The characters from the start of a text that fit a number of columns. -/
def fitting : (columns : Nat) → List Char → List Char
  | _, [] => []
  | columns, char :: rest =>
      let width := (Width.ofChar? char).getD 1
      if columns < width then []
      else char :: fitting (columns - width) rest

def skipped (margin : Margin) (line : List Char) : Nat :=
  Width.ofChars 1 (line.take (margin.left (Utf8.totalSize line)))

/-- Write the part of a line that is shown into a row, from a column on. -/
def writeLine (margin : Margin) (column : Nat) (line row : List Char) :
    List Char :=
  let length := Utf8.totalSize line
  let left := margin.left length
  let shown := fitting (margin.right length - left) (line.drop left)
  let row := Row.write column shown row
  let row := if margin.cutsLeft then Row.write column dots row else row
  if margin.cutsRight length then
    Row.write (column + Width.ofChars 1 shown - dots.length) dots row
  else row

end Margin
end Asm6502
