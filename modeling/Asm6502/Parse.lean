import Asm6502.Byte
import Asm6502.Diagnostic
import Asm6502.Tree

/-!
# Parses

The result of reading a text: its tree, its diagnostics, and whether reading
was cut short.  A parse that was cut short covers a prefix of the text.
-/

namespace Asm6502

structure Parse where
  /-- The bytes that the tree covers. -/
  text : Bytes
  root : Tree
  /-- Ordered by where they start. -/
  diagnostics : List Diagnostic
  cancelled : Bool
deriving DecidableEq, Repr

/-- There is a diagnostic, or an error somewhere in the tree. -/
def Parse.hasErrors (parse : Parse) : Bool :=
  !parse.diagnostics.isEmpty || parse.root.hasError

/-- A text was too long to read. -/
structure InputTooLarge where
  /-- How long it was found to be. -/
  length : Nat
  limit : Nat
deriving DecidableEq, Repr

namespace InputTooLarge

/-- The wording for a text of known length. -/
def message (error : InputTooLarge) : String :=
  "input of " ++ toString error.length ++ " bytes exceeds the limit of " ++
    toString error.limit ++ " bytes"

/-- The wording for a text of which only the beginning was read. -/
def readingMessage (error : InputTooLarge) : String :=
  "input of at least " ++ toString error.length ++
    " bytes exceeds the limit of " ++ toString error.limit ++ " bytes"

end InputTooLarge
end Asm6502
