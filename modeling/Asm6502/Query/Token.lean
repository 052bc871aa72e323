import Asm6502.Span
import Asm6502.Text.Utf8

/-!
# Tokens of queries

Patterns are written with parentheses, kind names, wildcards, quoted texts and
captures.  Characters that begin nothing are garbage; garbage that stands
together is one token.
-/

namespace Asm6502
namespace Query

inductive TokenKind where
  | leftParen
  | rightParen
  /-- `_` -/
  | wildcard
  /-- `@name` -/
  | capture
  /-- The name of a kind. -/
  | name
  /-- Text between double quotes. -/
  | text
  /-- Whitespace or a comment. -/
  | layout
  | garbage
deriving DecidableEq, Repr

/-- A token with its characters and the span of their bytes. -/
structure Token where
  kind : TokenKind
  chars : List Char
  span : Span
deriving DecidableEq, Repr

namespace Token

def isBlank (char : Char) : Bool :=
  char == ' ' || char == '\t' || char == '\r' || char == '\n'

def continuesName (char : Char) : Bool :=
  char.isAlphanum || char == '_'

def startsCapture (char : Char) : Bool :=
  char.isAlpha || char == '_'

def continuesCapture (char : Char) : Bool :=
  continuesName char || char == '.' || char == '-'

/-- The number of leading characters in a class. -/
def run (holds : Char → Bool) (chars : List Char) : Nat :=
  (chars.takeWhile holds).length

/-- Text up to the closing quote on the line; without one, all the rest of the
line is garbage. -/
def quoted (rest : List Char) : TokenKind × Nat :=
  let count := run (fun char => char != '"' && char != '\n') rest
  if rest[count]? = some '"' then (.text, count + 1) else (.garbage, count)

/-- The kind of the token that begins with `first`, and how many characters of
`rest` belong to it. -/
def classify (first : Char) (rest : List Char) : TokenKind × Nat :=
  match first with
  | '(' => (.leftParen, 0)
  | ')' => (.rightParen, 0)
  | '_' => (.wildcard, 0)
  | '@' =>
      if rest.head?.any startsCapture then
        (.capture, run continuesCapture rest)
      else (.garbage, 0)
  | '"' => quoted rest
  | ';' => (.layout, run (· != '\n') rest)
  | _ =>
      if isBlank first then (.layout, run isBlank rest)
      else if first.isAlpha then (.name, run continuesName rest)
      else (.garbage, 0)

/-- All tokens of a query behind `start` bytes, of which `skip` characters have
been read already. -/
def scanFrom : (start skip : Nat) → List Char → List Token
  | _, _, [] => []
  | start, skip + 1, _ :: rest => scanFrom start skip rest
  | start, 0, first :: rest =>
      let (kind, count) := classify first rest
      let chars := first :: rest.take count
      let stop := start + Utf8.totalSize chars
      ⟨kind, chars, ⟨start, stop⟩⟩ :: scanFrom stop count rest

/-- Join garbage that stands together. -/
def join : List Token → List Token
  | [] => []
  | token :: rest =>
      match join rest with
      | next :: others =>
          if token.kind = .garbage && next.kind = .garbage then
            ⟨.garbage, token.chars ++ next.chars,
              ⟨token.span.start, next.span.stop⟩⟩ :: others
          else token :: next :: others
      | [] => [token]

/-- The tokens of a query other than whitespace and comments. -/
def scan (source : List Char) : List Token :=
  (join (scanFrom 0 0 source)).filter fun token => token.kind != .layout

end Token
end Query
end Asm6502
