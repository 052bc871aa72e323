import Asm6502.View.Expression

/-!
# Addressing modes

The addressing mode of an instruction is read off the significant children of
its operand.  Branches are relative, and jumps have no zero-page form.
-/

namespace Asm6502
namespace View

/-- The addressing modes of the 6502. -/
inductive AddressingMode where
  | implied
  | accumulator
  | immediate
  | zeroPage
  | zeroPageX
  | zeroPageY
  | absolute
  | absoluteX
  | absoluteY
  | indirect
  /-- `(zp,x)` -/
  | indexedIndirect
  /-- `(zp),y` -/
  | indirectIndexed
  | relative
  /-- The operand has the shape of no mode. -/
  | invalid
deriving DecidableEq, Repr

/-- How the size of an address is chosen. -/
inductive AddressSize where
  | automatic
  | zeroPage
  | absolute
deriving DecidableEq, Repr

/-- An index register. -/
inductive IndexRegister where
  | x
  | y
deriving DecidableEq, Repr

namespace Operand

/-- The address size that a word stands for. -/
def sizeOf? (word : Bytes) : Option AddressSize :=
  if word = Bytes.ascii "z" then some .zeroPage
  else if word = Bytes.ascii "a" || word = Bytes.ascii "f" then some .absolute
  else none

/-- The elements behind an address size, and the size; none if what stands
before the colon is no size. -/
def splitSize? (source : Bytes) (elements : List Place) :
    Option (AddressSize × List Place) :=
  match elements with
  | size :: colon :: rest =>
      if size.isToken && colon.isToken && colon.kind == .colon then
        (sizeOf? (size.lowerBytes source)).map (·, rest)
      else some (.automatic, elements)
  | _ => some (.automatic, elements)

def isAccumulator (source : Bytes) (element : Place) : Bool :=
  element.isToken && element.kind == .register && element.reads source "a"

def indexOf? (source : Bytes) (element : Place) : Option IndexRegister :=
  if element.isToken && element.kind == .register then
    if element.reads source "x" then some .x
    else if element.reads source "y" then some .y
    else none
  else none

def inZeroPage (source : Bytes) (address : Place) : AddressSize → Bool
  | .zeroPage => true
  | .absolute => false
  | .automatic => Expression.isZeroPage source address

def direct (zeroPage : Bool) : AddressingMode :=
  if zeroPage then .zeroPage else .absolute

def indexed (zeroPage : Bool) : IndexRegister → AddressingMode
  | .x => if zeroPage then .zeroPageX else .absoluteX
  | .y => if zeroPage then .zeroPageY else .absoluteY

/-- The mode of an operand with the given significant elements. -/
def modeOf (source : Bytes) (size : AddressSize) (elements : List Place) :
    AddressingMode :=
  match elements with
  | [element] =>
      if size == .automatic && isAccumulator source element then .accumulator
      else if Expression.isExpression element then
        direct (inZeroPage source element size)
      else .invalid
  | [mark, value] =>
      if mark.kind == .hash && size == .automatic &&
          Expression.isExpression value then .immediate
      else .invalid
  | [first, second, third] =>
      if second.kind == .comma && third.kind == .register then
        if Expression.isExpression first then
          match indexOf? source third with
          | some register => indexed (inZeroPage source first size) register
          | none => .invalid
        else .invalid
      else if first.kind == .leftParen && third.kind == .rightParen &&
          Expression.isExpression second then .indirect
      else .invalid
  | [first, value, third, fourth, fifth] =>
      if first.kind == .leftParen && Expression.isExpression value then
        if third.kind == .comma && fourth.kind == .register &&
            fifth.kind == .rightParen &&
            indexOf? source fourth == some .x then .indexedIndirect
        else if third.kind == .rightParen && fourth.kind == .comma &&
            fifth.kind == .register &&
            indexOf? source fifth == some .y then .indirectIndexed
        else .invalid
      else .invalid
  | _ => .invalid

def mode (source : Bytes) (operand : Place) : AddressingMode :=
  match splitSize? source operand.significant with
  | some (size, elements) => modeOf source size elements
  | none => .invalid

/-- The address, or the immediate value. -/
def expression? (operand : Place) : Option Place :=
  Expression.first? operand

def indexRegister? (source : Bytes) (operand : Place) : Option Place :=
  (operand.significant.filter fun element =>
      element.isToken && element.kind == .register).getLast?.filter
    fun register => !register.reads source "a"

end Operand

namespace Instruction

def branches : List Bytes :=
  ["bcc", "bcs", "beq", "bmi", "bne", "bpl", "bvc", "bvs"].map Bytes.ascii

def jumps : List Bytes :=
  ["jmp", "jsr"].map Bytes.ascii

def mnemonic? (instruction : Place) : Option Place :=
  instruction.tokenOf? [.mnemonic]

def operand? (instruction : Place) : Option Place :=
  instruction.nodeOf? (· == .operand)

/-- The mode an instruction uses where its operand alone has the given one. -/
def refine (mnemonic : Bytes) (mode : AddressingMode) : AddressingMode :=
  if (mode == .zeroPage || mode == .absolute) && branches.contains mnemonic then
    .relative
  else if mode == .zeroPage && jumps.contains mnemonic then .absolute
  else mode

def mode (source : Bytes) (instruction : Place) : AddressingMode :=
  match operand? instruction with
  | none => .implied
  | some operand =>
      let own := Operand.mode source operand
      match mnemonic? instruction with
      | none => own
      | some mnemonic => refine (mnemonic.lowerBytes source) own

end Instruction
end View
end Asm6502
