import Asm6502.Byte
import Asm6502.Span
import Asm6502.Tree

/-!
# Trees over their text

A tree says nothing about where it stands.  Laid over a text, every element
knows its span, and every token the bytes it covers.
-/

namespace Asm6502

/-- An element of a tree over its text. -/
inductive Spelled where
  | token (kind : Kind) (span : Span) (bytes : Bytes)
  | node (kind : Kind) (span : Span) (children : List Spelled)
deriving Repr, Inhabited

namespace Spelled

def kind : Spelled → Kind
  | .token kind _ _ => kind
  | .node kind _ _ => kind

def span : Spelled → Span
  | .token _ span _ => span
  | .node _ span _ => span

def isToken : Spelled → Bool
  | .token _ _ _ => true
  | .node _ _ _ => false

end Spelled

namespace Tree

mutual

/-- A tree over the text from an offset on, and the text behind it. -/
def spell : Tree → (start : Nat) → (text : Bytes) → Spelled × Bytes
  | .token kind length, start, text =>
      (.token kind ⟨start, start + length⟩ (text.take length),
        text.drop length)
  | .node kind trees, start, text =>
      let (children, stop, rest) := spellAll trees start text
      (.node kind ⟨start, stop⟩ children, rest)

/-- Consecutive trees, the offset where they end, and the text behind them. -/
def spellAll : List Tree → (start : Nat) → (text : Bytes) →
    List Spelled × Nat × Bytes
  | [], start, text => ([], start, text)
  | tree :: trees, start, text =>
      let (first, behind) := spell tree start text
      let (others, stop, rest) := spellAll trees first.span.stop behind
      (first :: others, stop, rest)

end

end Tree

namespace Spelled

def render (element : Spelled) : String :=
  element.kind.spelling ++ "@" ++ element.span.render

mutual

/-- The bytes of all tokens of an element, in front of further bytes. -/
def bytesOnto : Spelled → (rest : Bytes) → Bytes
  | .token _ _ bytes, rest => bytes ++ rest
  | .node _ _ children, rest => allBytesOnto children rest

def allBytesOnto : List Spelled → (rest : Bytes) → Bytes
  | [], rest => rest
  | child :: others, rest => bytesOnto child (allBytesOnto others rest)

end

def bytes (element : Spelled) : Bytes :=
  element.bytesOnto []

mutual

/-- An element and everything below it with depths, parents before children, in
front of further elements. -/
def listOnto (depth : Nat) : Spelled → (rest : List (Nat × Spelled)) →
    List (Nat × Spelled)
  | .token kind span bytes, rest => (depth, .token kind span bytes) :: rest
  | .node kind span children, rest =>
      (depth, .node kind span children) ::
        listAllOnto (depth + 1) children rest

def listAllOnto (depth : Nat) : List Spelled → (rest : List (Nat × Spelled)) →
    List (Nat × Spelled)
  | [], rest => rest
  | child :: others, rest =>
      listOnto depth child (listAllOnto depth others rest)

end

/-- An element and everything below it with depths, parents before children. -/
def listed (element : Spelled) : List (Nat × Spelled) :=
  element.listOnto 0 []

end Spelled
end Asm6502
