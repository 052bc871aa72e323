import Asm6502.Line.Expression

/-!
# Operands of instructions

The addressing mode is read off the shape of the operand later.  The grammar
only keeps `#`, the parentheses of an indirect operand and the index registers
as children of the operand itself.
-/

namespace Asm6502
namespace Operand

/-- Address sizes that can stand before a colon: zero page, absolute, far. -/
def sizes : List Bytes :=
  [Bytes.ascii "z", Bytes.ascii "a", Bytes.ascii "f"]

def isSize (word : Bytes) : Bool :=
  sizes.contains (Bytes.lower word)

/-- Whether the parentheses that open the operand belong to its addressing
mode: nothing but a comma or the line's end follows the matching one, or there
is a comma right inside them, or they never close.  `depth` counts the open
parentheses before the kinds. -/
def isIndirectAt : (depth : Nat) → List Kind → Bool
  | _, [] => true
  | depth, .leftParen :: rest => isIndirectAt (depth + 1) rest
  | depth, .rightParen :: rest =>
      if depth ≤ 1 then
        match rest with
        | [] | .eol :: _ | .eof :: _ | .comma :: _ => true
        | _ => false
      else isIndirectAt (depth - 1) rest
  | depth, .comma :: rest =>
      if depth = 1 then true else isIndirectAt depth rest
  | depth, _ :: rest => isIndirectAt depth rest

/-- Whether an operand that starts with `(` is indirect. -/
def isIndirect (draft : Draft) : Bool :=
  isIndirectAt 0 (draft.significant.map Token.kind)

def hasSize (draft : Draft) : Bool :=
  (draft.peek == .ident || draft.peek == .register) &&
    draft.kindAt 1 == .colon && isSize (draft.textAt 0)

/-- A comma and an index register, if there is a comma. -/
def index (cause : Cause) (draft : Draft) : Draft :=
  if draft.peek = .comma then draft.bump.expect .register cause else draft

/-- An address: an expression, in parentheses or not, possibly indexed. -/
def address (draft : Draft) : Draft :=
  let draft := if hasSize draft then draft.bump.bump else draft
  let draft :=
    if draft.peek = .leftParen && isIndirect draft then
      (index .expectedXRegister (Expression.read draft.bump)).expect .rightParen
        .expectedClosingParen
    else Expression.read draft
  index .expectedIndexRegister draft

/-- The operand of an instruction, if the line has one. -/
def read (draft : Draft) : Draft :=
  if draft.atLineEnd then draft
  else
    draft.node .operand fun draft =>
      match draft.peek with
      | .hash => Expression.read draft.bump
      | .register =>
          if (draft.kindAt 1).endsLine then draft.bump else address draft
      | _ => address draft

end Operand
end Asm6502
