import Asm6502.Token.Scan

/-!
# Scanners

A scanner stands at an offset of a text and gives one token at each call.  At
the end of the text it gives empty tokens and stays where it is.  Scanning can
be taken up again at any offset with the state it had there.
-/

namespace Asm6502

structure Scanner where
  offset : Nat
  /-- The text from the offset on. -/
  rest : Bytes
  /-- Whether the last significant token ended a line. -/
  atLineStart : Bool
deriving DecidableEq, Repr

namespace Scanner

/-- Take up scanning at an offset, or at the end of a text that is shorter. -/
def resume (text : Bytes) (offset : Nat) (atLineStart : Bool) : Scanner where
  offset := min offset text.length
  rest := text.drop offset
  atLineStart := atLineStart

def next (dialect : Dialect) (scanner : Scanner) : Token × Scanner :=
  match scanner.rest with
  | [] => (⟨.eof, []⟩, scanner)
  | first :: rest =>
      let (kind, count) :=
        Scan.classify dialect scanner.atLineStart first rest
      let token : Token := ⟨kind, first :: rest.take count⟩
      (token,
        { offset := scanner.offset + token.length
          rest := rest.drop count
          atLineStart := Scan.lineStartAfter scanner.atLineStart kind })

def after (dialect : Dialect) : Nat → Scanner → Scanner
  | 0, scanner => scanner
  | count + 1, scanner => after dialect count (scanner.next dialect).2

/-- Each call up to the first one that finds the end of the text: the token and
the scanner behind it.  At most `fuel` tokens are taken. -/
def calls (dialect : Dialect) : (fuel : Nat) → Scanner → List (Token × Scanner)
  | 0, scanner => [scanner.next dialect]
  | fuel + 1, scanner =>
      let call := scanner.next dialect
      if call.1.kind = .eof then [call]
      else call :: calls dialect fuel call.2

end Scanner
end Asm6502
