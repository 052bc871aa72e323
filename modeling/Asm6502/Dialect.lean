import Asm6502.Dialect.Vocabulary

/-!
# Dialects

A dialect is the stock vocabulary together with extra instruction mnemonics,
such as those of later processors.  An extra mnemonic takes the place of a
stock keyword with the same spelling.
-/

namespace Asm6502

/-- The words a source text is read with. -/
structure Dialect where
  /-- Further mnemonics, in lower case. -/
  extraMnemonics : List Bytes := []
deriving DecidableEq, Repr

namespace Dialect

/-- The stock assembler language. -/
def stock : Dialect := {}

/-- Words longer than this are never keywords. -/
def maxKeywordLength : Nat := 32

def canBeKeyword (word : Bytes) : Bool :=
  !word.isEmpty && word.length ≤ maxKeywordLength

/-- Add mnemonics.  Letter case does not matter, and names that cannot be
keywords are ignored. -/
def withExtraMnemonics (dialect : Dialect) (names : List Bytes) : Dialect :=
  { extraMnemonics :=
      dialect.extraMnemonics ++ (names.filter canBeKeyword).map Bytes.lower }

/-- The meaning of a word, ignoring ASCII case.  Dotted words include their
leading dot. -/
def keyword? (dialect : Dialect) (word : Bytes) : Option Keyword :=
  if canBeKeyword word then
    if dialect.extraMnemonics.contains (Bytes.lower word) then some .mnemonic
    else Vocabulary.table.lookup (Bytes.lower word)
  else none

def directive? (dialect : Dialect) (word : Bytes) : Option Directive :=
  match dialect.keyword? word with
  | some (.directive command) => some command
  | _ => none

def isMnemonic (dialect : Dialect) (word : Bytes) : Bool :=
  dialect.keyword? word == some .mnemonic

end Dialect
end Asm6502
