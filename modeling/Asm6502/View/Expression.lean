import Asm6502.Number
import Asm6502.View.Arithmetic
import Asm6502.View.Select

/-!
# Views of expressions

The parts of an expression node, and its value where it is constant.  Symbols
have no value, and neither has an expression that is nested too deeply.
-/

namespace Asm6502
namespace View

/-- What an expression node is made of. -/
inductive Form where
  | binary | unary | paren | call | macroCall | literal | name
deriving DecidableEq, Repr

/-- The form of an expression node of the given kind, none for other kinds. -/
def Form.ofKind? : Kind → Option Form
  | .binaryExpr => some .binary
  | .unaryExpr => some .unary
  | .parenExpr => some .paren
  | .callExpr => some .call
  | .macroCall => some .macroCall
  | .numberLiteral | .charLiteral | .stringLiteral => some .literal
  | .identifier | .member | .localLabelRef | .unnamedLabelRef | .pseudoVar =>
      some .name
  | _ => none

namespace Expression

def isExpressionKind (kind : Kind) : Bool :=
  (Form.ofKind? kind).isSome

/-- The form of a place, if an expression stands there. -/
def form? (place : Place) : Option Form :=
  if place.isNode then Form.ofKind? place.kind else none

def isExpression (place : Place) : Bool :=
  (form? place).isSome

def all (root : Place) : List Place :=
  root.preorder.filter isExpression

def operands (place : Place) : List Place :=
  place.nodesOf isExpressionKind

/-- The first expression among the children: a left operand, the operand of a
prefix operator, or what stands between parentheses. -/
def first? (place : Place) : Option Place :=
  (operands place)[0]?

/-- The second expression among the children: a right operand. -/
def second? (place : Place) : Option Place :=
  (operands place)[1]?

/-- The operator between two operands: the first significant token. -/
def infixOperator? (place : Place) : Option Place :=
  place.significant.find? Place.isToken

/-- The operator before an operand: the first significant child, if that is a
token. -/
def prefixOperator? (place : Place) : Option Place :=
  place.significant.head?.filter Place.isToken

def function? (place : Place) : Option Place :=
  place.tokenOf? [.pseudoFnKw]

def nameText (source : Bytes) (place : Place) : String :=
  String.join (place.significant.map fun element => element.text source)

def literalValue? (source : Bytes) (place : Place) : Option Int64 :=
  match place.firstToken? with
  | none => none
  | some token =>
      match token.kind, token.bytes source with
      | .number, digits => Number.parse? digits
      | .char, [0x27, byte, 0x27] => some (Int64.ofNat byte.toNat)
      | _, _ => none

/-- Expressions nested deeper than this below another have no value in it. -/
def maxDepth : Nat := 64

/-- The value of an expression that is looked into at most `levels` deep. -/
def valueWithin? (source : Bytes) : (levels : Nat) → Place → Option Int64
  | 0, _ => none
  | levels + 1, place =>
      match form? place with
      | some .literal => literalValue? source place
      | some .paren => do valueWithin? source levels (← first? place)
      | some .unary => do
          let value ← valueWithin? source levels (← first? place)
          let operator ← prefixOperator? place
          let operation ← Arithmetic.UnaryOperation.ofToken? operator.kind
            (operator.lowerBytes source)
          return operation.apply value
      | some .binary => do
          let left ← valueWithin? source levels (← first? place)
          let right ← valueWithin? source levels (← second? place)
          let operator ← infixOperator? place
          let operation ← Arithmetic.BinaryOperation.ofToken? operator.kind
            (operator.lowerBytes source)
          operation.result? left right
      | some .call => do
          let function ← function? place
          match operands place with
          | [argument] =>
              let value ← valueWithin? source levels argument
              let operation ← Arithmetic.ByteFunction.ofName?
                (function.lowerBytes source)
              return operation.apply value
          | _ => none
      | some .name => none
      | some .macroCall => none
      | none => none

/-- The value of a constant expression. -/
def value? (source : Bytes) (place : Place) : Option Int64 :=
  valueWithin? source (maxDepth + 1) place

def fitsByte (source : Bytes) (place : Place) : Bool :=
  (value? source place).any fun value => 0 ≤ value && value ≤ 255

def selectsByte : Kind → Bool
  | .lt | .gt | .caret => true
  | _ => false

/-- Whether an address selects the zero page by itself: it fits a byte, or it
is one byte of something larger. -/
def isZeroPage (source : Bytes) (place : Place) : Bool :=
  let isByte :=
    match form? place with
    | some .unary =>
        (prefixOperator? place).any fun operator => selectsByte operator.kind
    | some .call =>
        (function? place).any fun function =>
          (Arithmetic.ByteFunction.ofName? (function.lowerBytes source)).any
            Arithmetic.ByteFunction.givesByte
    | _ => false
  isByte || fitsByte source place

end Expression
end View
end Asm6502
