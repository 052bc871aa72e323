import Asm6502.Diagnostic
import Asm6502.Diagnostic.Margin

/-!
# Diagnostics with their line

A diagnostic is shown under the line it starts on, with the span marked.  The
text for display can differ from the bytes that were parsed, so the span is
first brought inside the text and to whole characters.
-/

namespace Asm6502

/-- Where an offset falls in a text. -/
structure Landing where
  /-- The number of its line, from one. -/
  number : Nat
  /-- The text from the start of its line on. -/
  line : List Char
  /-- How many characters of the line stand before it. -/
  before : Nat
  /-- The text behind it. -/
  rest : List Char
  /-- By how many bytes the offset misses the end of a character; past the end
  of the text, by how many it does. -/
  excess : Nat
deriving DecidableEq, Repr

namespace Landing

/-- The place of an offset from `rest` on, where `before` characters of a line
have been passed. -/
def find : (offset number : Nat) → (line : List Char) → (before : Nat) →
    (rest : List Char) → Landing
  | offset, number, line, before, [] => ⟨number, line, before, [], offset⟩
  | offset, number, line, before, char :: rest =>
      if offset < Utf8.size char then
        ⟨number, line, before, char :: rest, offset⟩
      else if char = '\n' then
        find (offset - Utf8.size char) (number + 1) rest 0 rest
      else find (offset - Utf8.size char) number line (before + 1) rest

def ofOffset (text : List Char) (offset : Nat) : Landing :=
  find offset 1 text 0 text

end Landing

/-- The lines that a span reaches, the first of which is shown. -/
structure Snippet where
  /-- The number of the line, from one. -/
  number : Nat
  /-- The line that is shown. -/
  line : List Char
  /-- How many characters of the line stand before the span. -/
  before : Nat
  /-- How many characters behind those belong to the span. -/
  marked : Nat
  /-- Further lines that the span reaches. -/
  further : List (List Char)
deriving DecidableEq, Repr

namespace Snippet

/-- The lines of a text.  A carriage return goes with the newline behind it. -/
def splitLines : List Char → List (List Char)
  | [] => []
  | char :: rest =>
      if char = '\n' then [] :: splitLines rest
      else if char = '\r' && rest.head? = some '\n' then splitLines rest
      else
        match splitLines rest with
        | [] => [[char]]
        | line :: others => (char :: line) :: others

/-- The lines that a span of a text reaches, up to the newline behind it; none
if there is nothing in front of that newline. -/
def ofSpan? (text : List Char) (span : Span) : Option Snippet :=
  let landing := Landing.ofOffset text span.start
  let marked :=
    Utf8.charsBefore landing.rest (span.stop - (span.start - landing.excess))
  let reached :=
    landing.line.take (landing.before + marked) ++
      (landing.rest.drop marked).takeWhile (· != '\n')
  match splitLines reached with
  | [] => none
  | line :: further =>
      some ⟨landing.number, line, landing.before, marked, further⟩

def startColumn (snippet : Snippet) : Nat :=
  Width.ofChars 0 (snippet.line.take snippet.before)

/-- The column behind the span on the line; it marks one column at least. -/
def stopColumn (snippet : Snippet) : Nat :=
  max (snippet.startColumn + 1)
    (Width.ofChars 0 (snippet.line.take (snippet.before + snippet.marked)))

/-- The place of the span's start in the line, in characters from one. -/
def position (snippet : Snippet) : Nat :=
  min snippet.before snippet.line.length + 1

def label : List Char := "here".toList

def isBlank (char : Char) : Bool :=
  Ranges.holds
    [(0x09, 0x0d), (0x20, 0x20), (0x85, 0x85), (0xa0, 0xa0), (0x1680, 0x1680),
      (0x2000, 0x200a), (0x2028, 0x2029), (0x202f, 0x202f), (0x205f, 0x205f),
      (0x3000, 0x3000)] char.toNat

/-- The columns of white space in front of a line; a tab takes four.  A line of
white space alone sets no limit. -/
def indent (line : List Char) : Nat :=
  if line.all isBlank then Extent.unlimited else leading line
where
  leading : List Char → Nat
    | [] => 0
    | char :: rest =>
        if isBlank char then (if char = '\t' then 4 else 1) + leading rest
        else 0

def terminalWidth : Nat := 140

/-- The columns that a line's number takes with what stands around it. -/
def gutterWidth (number : Nat) : Nat :=
  (toString number).length + 3

def extent (snippet : Snippet) : Extent where
  indent :=
    snippet.further.foldl (fun least line => min least (indent line))
      (indent snippet.line)
  start := snippet.startColumn
  stop := snippet.stopColumn
  labelStop := snippet.stopColumn + label.length + 1
  longest :=
    snippet.further.foldl (fun most line => max most (Utf8.totalSize line))
      (Utf8.totalSize snippet.line)

/-- The part of the line that is shown.  The gutter has to leave space for the
number of the line behind the last one. -/
def margin (snippet : Snippet) : Margin :=
  Margin.ofExtent
    (terminalWidth -
      gutterWidth (snippet.number + snippet.further.length + 1))
    snippet.extent

/-- A character as it is shown: tabs are four spaces, and marks that steer the
direction or the joining of text are left out. -/
def showChar (char : Char) : List Char :=
  if char = '\t' then Row.spaces 4
  else if char.toNat = 0x200d || (0x202a ≤ char.toNat && char.toNat ≤ 0x202e) ||
      (0x2066 ≤ char.toNat && char.toNat ≤ 0x2069) then []
  else [char]

/-- The line as it is shown if it is not cut. -/
def shownLine (snippet : Snippet) : List Char :=
  snippet.line.flatMap showChar

/-- The row with the line's number and the line. -/
def lineRow (snippet : Snippet) : List Char :=
  snippet.margin.writeLine (gutterWidth snippet.number) snippet.shownLine
    ((toString snippet.number).toList ++ [' ', '|'])

/-- The row in front of the line and behind the marks. -/
def emptyRow (gutter : Nat) : List Char :=
  Row.spaces (gutter + 1) ++ ['|']

/-- The row that marks the span. -/
def markRow (snippet : Snippet) : List Char :=
  let gutter := gutterWidth snippet.number
  let skipped := snippet.margin.skipped snippet.shownLine
  let first := gutter + snippet.startColumn - skipped
  let last := gutter + (snippet.stopColumn - 1) - skipped
  Row.write first (List.replicate (last - first + 1) '^')
    (Row.write (gutter + (snippet.stopColumn + 1 - skipped)) label
      (emptyRow (toString snippet.number).length))

/-- The row that states what is wrong. -/
def titleRow (message : String) : String :=
  if message.isEmpty then "error" else "error: " ++ message

/-- The row that says where the span starts, behind a gutter. -/
def originRow (gutter : Nat) (path : String) (number position : Nat) :
    String :=
  String.ofList (Row.write (gutter + 4) path.toList
      (Row.spaces gutter ++ "-->".toList)) ++
    ":" ++ toString number ++ ":" ++ toString position

def render (path message : String) (snippet : Snippet) : List String :=
  let gutter := (toString snippet.number).length
  [titleRow message, originRow gutter path snippet.number snippet.position,
    String.ofList (emptyRow gutter), String.ofList snippet.lineRow,
    String.ofList snippet.markRow, String.ofList (emptyRow gutter)]

/-- The rows that show a message where there is no line to show. -/
def renderBare (path message : String) : List String :=
  [titleRow message, originRow 0 path 1 1, String.ofList (emptyRow 0),
    String.ofList (emptyRow 0)]

end Snippet

def Diagnostic.render (path : String) (text : List Char)
    (diagnostic : Diagnostic) : List String :=
  match Snippet.ofSpan? text diagnostic.span with
  | some snippet => snippet.render path diagnostic.message
  | none => Snippet.renderBare path diagnostic.message

end Asm6502
