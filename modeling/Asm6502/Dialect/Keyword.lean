import Asm6502.Byte
import Asm6502.Kind

/-!
# Keywords

A word of the assembler language can be an instruction mnemonic, a register, a
control command or one of the dotted words of expressions.  Control commands
carry the shape of their arguments and the part they play in block structure.
-/

namespace Asm6502

/-- What a block of lines is opened as.  Several of these share a node kind,
and each has a closing command of its own. -/
inductive BlockKind where
  | macroBody | conditional | procedure | scope | repetition | record | union
  | enumeration
deriving DecidableEq, Repr

namespace BlockKind

/-- The kind of the node that holds the block's lines. -/
def nodeKind : BlockKind → Kind
  | .macroBody => .macroDefinition
  | .conditional => .conditional
  | .procedure | .scope => .scopeBlock
  | .repetition => .repeatBlock
  | .record | .union => .structBlock
  | .enumeration => .enumBlock

/-- Lines of these blocks declare members rather than statements. -/
def hasFields : BlockKind → Bool
  | .record | .union | .enumeration => true
  | _ => false

def closer : BlockKind → String
  | .macroBody => ".endmacro"
  | .conditional => ".endif"
  | .procedure => ".endproc"
  | .scope => ".endscope"
  | .repetition => ".endrepeat"
  | .record => ".endstruct"
  | .union => ".endunion"
  | .enumeration => ".endenum"

end BlockKind

/-- How a control command takes part in block structure. -/
inductive BlockRole where
  | plain
  | opens (block : BlockKind)
  | branch
  | closes (block : BlockKind)
deriving DecidableEq, Repr

/-- The shape of what follows a control command on its line. -/
inductive ArgumentShape where
  /-- Nothing. -/
  | none
  /-- Expressions between commas, each possibly with an address size. -/
  | expressions
  /-- A word or a sign, possibly omitted. -/
  | toggle
  /-- Words between commas, each possibly with a sign. -/
  | words
  /-- A macro's name and its parameters. -/
  | macroHeader
  /-- A name, parameters in parentheses, and replacement text. -/
  | define
  /-- The value of a symbol; only meaningful after its name. -/
  | assignment
deriving DecidableEq, Repr

/-- A control command under its canonical spelling. -/
structure Directive where
  name : String
  arguments : ArgumentShape
  role : BlockRole := .plain
deriving DecidableEq, Repr

/-- What a word means wherever it stands. -/
inductive Keyword where
  | mnemonic
  | register
  | directive (command : Directive)
  | pseudoFunction
  | pseudoVariable
  | dotOperator
deriving DecidableEq, Repr

/-- The kind of a token that spells the keyword. -/
def Keyword.tokenKind : Keyword → Kind
  | .mnemonic => .mnemonic
  | .register => .register
  | .directive _ => .directiveKw
  | .pseudoFunction => .pseudoFnKw
  | .pseudoVariable => .pseudoVarKw
  | .dotOperator => .dotOpKw

end Asm6502
