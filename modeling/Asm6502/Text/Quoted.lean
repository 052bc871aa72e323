import Asm6502.Text.Printable

/-!
# Quoted text

Text is shown between double quotes.  Quotes, backslashes and the usual control
characters have short escapes; other characters that do not print are written
as their number in hexadecimal digits.
-/

namespace Asm6502
namespace Quoted

def escape (char : Char) : List Char :=
  match char with
  | '\x00' => ['\\', '0']
  | '\t' => ['\\', 't']
  | '\r' => ['\\', 'r']
  | '\n' => ['\\', 'n']
  | '"' => ['\\', '"']
  | '\\' => ['\\', '\\']
  | _ =>
      if Printable.holds char then [char]
      else ['\\', 'u', '\x7b'] ++ Nat.toDigits 16 char.toNat ++ ['\x7d']

def render (text : String) : String :=
  String.ofList ('"' :: text.toList.flatMap escape ++ ['"'])

end Quoted
end Asm6502
