import Asm6502.Dialect.Keyword

/-!
# Causes of syntax errors

What can be wrong with a line or with the block structure, and how each fault
is worded.
-/

namespace Asm6502

inductive Cause where
  | expectedExpression
  | expectedOpeningParen
  | expectedClosingParen
  | expectedClosingBrace
  | expectedName
  | expectedAddressSize
  | expectedMacroName
  | expectedParameterName
  | expectedXRegister
  | expectedIndexRegister
  | expectedStatement
  | expectedEndOfLine
  /-- A dotted word that is no command. -/
  | unknownDirective (word : String)
  /-- A command word that the dialect does not list. -/
  | unlistedDirective
  /-- A closing command inside a block that another one closes. -/
  | mismatchedCloser (block : BlockKind) (found : String)
  | closerOutsideBlock (found : String)
  | branchOutsideConditional (found : String)
  | unterminatedBlock (block : BlockKind)
deriving DecidableEq, Repr

private def Cause.quote (word : String) : String :=
  "`" ++ word ++ "`"

/-- The wording of a fault. -/
def Cause.message : Cause → String
  | .expectedExpression => "expected expression"
  | .expectedOpeningParen => "expected `(`"
  | .expectedClosingParen => "expected `)`"
  | .expectedClosingBrace => "expected `\x7d`"
  | .expectedName => "expected a name"
  | .expectedAddressSize => "expected an address size"
  | .expectedMacroName => "expected a macro name"
  | .expectedParameterName => "expected a parameter name"
  | .expectedXRegister => "expected `x`"
  | .expectedIndexRegister => "expected an index register"
  | .expectedStatement => "expected a statement"
  | .expectedEndOfLine => "expected end of line"
  | .unknownDirective word => "unknown directive " ++ quote word
  | .unlistedDirective => "unknown directive"
  | .mismatchedCloser block found =>
      "expected " ++ quote block.closer ++ ", found " ++ quote found
  | .closerOutsideBlock found => quote found ++ " without an open block"
  | .branchOutsideConditional found =>
      quote found ++ " outside of a conditional block"
  | .unterminatedBlock block =>
      "unterminated block, expected " ++ quote block.closer

end Asm6502
