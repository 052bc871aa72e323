import Asm6502.Dialect
import Asm6502.Token

/-!
# Scanning

Text is cut into tokens from left to right.  The only context a token depends
on is whether the last significant token ended a line: at the start of a line
`:` is an unnamed label, elsewhere a colon can begin a longer token.

A token is described by its kind and by how many bytes follow its first one.
Whatever the description, taking that many bytes leaves the rest of the text,
so the tokens always tile what was scanned.
-/

namespace Asm6502
namespace Scan

def run (holds : UInt8 → Bool) (text : Bytes) : Nat :=
  (text.takeWhile holds).length

/-- Blanks up to the end of the line; a carriage return before a newline
already belongs to the line's end. -/
def blankRun : Bytes → Nat
  | [] => 0
  | byte :: rest =>
      if Byte.isBlank byte && !Bytes.atLineEnd (byte :: rest) then
        blankRun rest + 1
      else 0

/-- The distance to just behind the next `quote` on the line, if there is
one. -/
def closing? (quote : UInt8) : Bytes → Option Nat
  | [] => none
  | byte :: rest =>
      if Bytes.atLineEnd (byte :: rest) then none
      else if byte == quote then some 1
      else (closing? quote rest).map (· + 1)

def isPunctuation (byte : UInt8) : Bool :=
  (Bytes.ascii "#,:=()\x7b\x7d[]+-*/&|^~!<>").contains byte

def nextIs (holds : UInt8 → Bool) (rest : Bytes) : Bool :=
  rest.head?.any holds

/-- Whether a run of unrecognised bytes stops before this byte. -/
def startsToken (byte : UInt8) (rest : Bytes) : Bool :=
  match Byte.char byte with
  | '$' => nextIs Byte.isHexDigit rest
  | '%' => nextIs Byte.isBinaryDigit rest
  | '.' | '@' => nextIs Byte.startsWord rest
  | '\\' =>
      nextIs (fun next => next == Byte.newline || next == Byte.carriageReturn)
        rest
  | '\n' | ';' | '\'' | '"' => true
  | _ => Byte.isBlank byte || isPunctuation byte || Byte.continuesWord byte

/-- Bytes that no token starts with, glued into one run. -/
def strayRun : Bytes → Nat
  | [] => 0
  | byte :: rest => if startsToken byte rest then 0 else strayRun rest + 1

/-- The length of a line end at the head of the text, or zero. -/
def lineEndLength : Bytes → Nat
  | 0x0a :: _ => 1
  | 0x0d :: 0x0a :: _ => 2
  | _ => 0

/-- Tokens of one byte, whatever follows. -/
def single? : Char → Option Kind
  | '#' => some .hash
  | ',' => some .comma
  | '(' => some .leftParen
  | ')' => some .rightParen
  | '\x7b' => some .leftBrace
  | '\x7d' => some .rightBrace
  | '[' => some .leftBracket
  | ']' => some .rightBracket
  | '=' => some .eq
  | '+' => some .plus
  | '-' => some .minus
  | '*' => some .star
  | '/' => some .slash
  | '~' => some .tilde
  | '!' => some .bang
  | '^' => some .caret
  | _ => none

def double? : Char → Char → Option Kind
  | '&', '&' => some .amp2
  | '|', '|' => some .pipe2
  | '<', '<' => some .shl
  | '<', '=' => some .ltEq
  | '<', '>' => some .ltGt
  | '>', '>' => some .shr
  | '>', '=' => some .gtEq
  | _, _ => none

/-- An operator that may be doubled: the two-byte token if the next byte
completes one, else the given kind alone. -/
def operator (first : Char) (alone : Kind) (rest : Bytes) : Kind × Nat :=
  match rest.head?.bind fun next => double? first (Byte.char next) with
  | some kind => (kind, 1)
  | none => (alone, 0)

/-- A colon: the unnamed label at the start of a line; elsewhere the scope
operator, an assignment, or a reference to an unnamed label by its distance. -/
def colon (atLineStart : Bool) (rest : Bytes) : Kind × Nat :=
  if atLineStart then (.colon, 0)
  else
    match rest with
    | [] => (.colon, 0)
    | next :: _ =>
        match Byte.char next with
        | ':' => (.colon2, 1)
        | '=' => (.colonEq, 1)
        | '+' | '-' => (.unnamedRef, run (· == next) rest)
        | _ => (.colon, 0)

/-- A character between single quotes.  Anything else after a single quote is
an error up to the next one or the end of the line. -/
def character (rest : Bytes) : Kind × Nat :=
  match rest with
  | _ :: 0x27 :: _ =>
      if Bytes.atLineEnd rest then (.errorToken, 0) else (.char, 2)
  | _ =>
      (.errorToken, (closing? 0x27 rest).getD (Bytes.lineLength rest))

/-- Strings have no escapes and end with the line. -/
def stringLiteral (rest : Bytes) : Kind × Nat :=
  match closing? 0x22 rest with
  | some count => (.string, count)
  | none => (.errorToken, Bytes.lineLength rest)

/-- A word without a dot is a keyword only as a mnemonic or a register. -/
def plainWord (dialect : Dialect) (word : Bytes) : Kind :=
  match dialect.keyword? word with
  | some .mnemonic => .mnemonic
  | some .register => .register
  | _ => .ident

def dottedWord (dialect : Dialect) (word : Bytes) : Kind :=
  match dialect.keyword? word with
  | some keyword => keyword.tokenKind
  | none => .dotIdent

/-- A byte that starts no token by itself, with the unrecognised bytes after
it. -/
def stray (rest : Bytes) : Kind × Nat :=
  (.errorToken, strayRun rest)

/-- The kind of the token that begins with `first`, and how many bytes of
`rest` belong to it. -/
def classify (dialect : Dialect) (atLineStart : Bool) (first : UInt8)
    (rest : Bytes) : Kind × Nat :=
  match single? (Byte.char first) with
  | some kind => (kind, 0)
  | none =>
      match Byte.char first with
      | '\n' => (.eol, 0)
      | '\r' =>
          if rest.head? == some Byte.newline then (.eol, 1)
          else (.whitespace, blankRun rest)
      | ' ' | '\t' | '\x0b' | '\x0c' => (.whitespace, blankRun rest)
      | ';' => (.comment, Bytes.lineLength rest)
      | '\\' =>
          if Bytes.atLineEnd rest then (.lineContinuation, lineEndLength rest)
          else stray rest
      | ':' => colon atLineStart rest
      | '&' => operator '&' .amp rest
      | '|' => operator '|' .pipe rest
      | '<' => operator '<' .lt rest
      | '>' => operator '>' .gt rest
      | '$' =>
          if nextIs Byte.isHexDigit rest then
            (.number, run Byte.isHexDigit rest)
          else stray rest
      | '%' =>
          if nextIs Byte.isBinaryDigit rest then
            (.number, run Byte.isBinaryDigit rest)
          else stray rest
      | '\'' => character rest
      | '"' => stringLiteral rest
      | '@' =>
          if nextIs Byte.startsWord rest then
            (.localIdent, run Byte.continuesWord rest)
          else stray rest
      | '.' =>
          if nextIs Byte.startsWord rest then
            let count := run Byte.continuesWord rest
            (dottedWord dialect (first :: rest.take count), count)
          else stray rest
      | _ =>
          if Byte.isDigit first then
            (.number, run Byte.continuesWord rest)
          else if Byte.startsWord first then
            let count := run Byte.continuesWord rest
            (plainWord dialect (first :: rest.take count), count)
          else stray rest

/-- Whether the scanner is at the start of a line after a token: trivia leave
that open. -/
def lineStartAfter (atLineStart : Bool) (kind : Kind) : Bool :=
  if kind.isTrivia then atLineStart else kind == .eol

/-- All tokens of a text whose first `skip` bytes have been scanned already. -/
def scanFrom (dialect : Dialect) :
    (atLineStart : Bool) → (skip : Nat) → Bytes → List Token
  | _, _, [] => []
  | atLineStart, skip + 1, _ :: rest => scanFrom dialect atLineStart skip rest
  | atLineStart, 0, first :: rest =>
      let (kind, count) := classify dialect atLineStart first rest
      ⟨kind, first :: rest.take count⟩ ::
        scanFrom dialect (lineStartAfter atLineStart kind) count rest

/-- The tokens up to the end of the line, line end included. -/
def lineFrom (dialect : Dialect) :
    (atLineStart : Bool) → (skip : Nat) → Bytes → List Token
  | _, _, [] => []
  | atLineStart, skip + 1, _ :: rest => lineFrom dialect atLineStart skip rest
  | atLineStart, 0, first :: rest =>
      let (kind, count) := classify dialect atLineStart first rest
      let token : Token := ⟨kind, first :: rest.take count⟩
      if kind = .eol then [token]
      else
        token :: lineFrom dialect (lineStartAfter atLineStart kind) count rest

/-- The tokens of a whole text. -/
def scan (dialect : Dialect) (text : Bytes) : List Token :=
  scanFrom dialect true 0 text

/-- The tokens of the first logical line of a text. -/
def line (dialect : Dialect) (text : Bytes) : List Token :=
  lineFrom dialect true 0 text

end Scan
end Asm6502
