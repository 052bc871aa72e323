import Asm6502.Proofs.ConstantFolding
import Asm6502.Proofs.PrintedInstructions
import Asm6502.View.Statement

/-!
# Addressing modes

An instruction that is printed with an operand is parsed without a complaint, and its
addressing mode is the one that the marks around the address stand for.  The mode is
found again from the children of the operand, although the grammar only tells by a scan
of the line which parentheses belong to it.
-/

namespace Asm6502

open List (Forall₂)
open Draft Place View.Expression

namespace OperandTerm

open View (AddressSize IndexRegister AddressingMode)

/-- A direct address has a short form in the zero page. -/
def directMode (zeroPage : Bool) : Option IndexRegister → AddressingMode
  | none => if zeroPage then .zeroPage else .absolute
  | some .x => if zeroPage then .zeroPageX else .absoluteX
  | some .y => if zeroPage then .zeroPageY else .absoluteY

/-- Parentheses go with an index `x` in them or an index `y` behind them. -/
def enclosedMode : (inner? outer? : Option IndexRegister) → AddressingMode
  | none, none => .indirect
  | some .x, none => .indexedIndirect
  | none, some .y => .indirectIndexed
  | _, _ => .invalid

/-- A size decides about the short form, and otherwise the address does. -/
def isShort (zeroPage : Bool) (size? : Option SizeWord) : Bool :=
  match size?.map Spelling.meaning with
  | some .zeroPage => true
  | some .absolute => false
  | some .automatic | none => zeroPage

/-- The addressing mode of an operand whose address is in the zero page or not. -/
def mode (zeroPage : Bool) : OperandTerm → AddressingMode
  | immediate _ => .immediate
  | direct size? _ index? => directMode (isShort zeroPage size?) (index?.map Spelling.meaning)
  | enclosed _ inner? outer? =>
      enclosedMode (inner?.map Spelling.meaning) (outer?.map Spelling.meaning)

end OperandTerm

namespace View.Operand

variable {source : Bytes} {root : Written} {place : Place} {term : Term} {token : Token}

open OperandTerm

variable {elements : List Place} {index? : Option IndexWord}

section

variable {opening address comma register closing : Place} {index : IndexRegister}

end

end View.Operand

namespace View.Instruction

variable {mnemonic : Bytes} {mode : AddressingMode} {zeroPage : Bool}

end View.Instruction

namespace Parse

open OperandTerm

variable {word : Bytes} {operand : OperandTerm}

end Parse
end Asm6502
