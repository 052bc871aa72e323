import Asm6502.Byte
import Asm6502.Kind

/-!
# Tokens

A token is a kind together with the bytes it covers.  A list of tokens covers
the concatenation of their texts, so positions never need to be stored.
-/

namespace Asm6502

structure Token where
  kind : Kind
  text : Bytes
deriving DecidableEq, Repr

namespace Token

def length (token : Token) : Nat :=
  token.text.length

def isTrivia (token : Token) : Bool :=
  token.kind.isTrivia

def totalLength : List Token → Nat
  | [] => 0
  | token :: rest => token.length + totalLength rest

/-- The token in a list that `index` significant ones precede, trivia passed
over. -/
def significantAt? : (index : Nat) → List Token → Option Token
  | _, [] => none
  | index, token :: rest =>
      if token.isTrivia then significantAt? index rest
      else
        match index with
        | 0 => some token
        | index + 1 => significantAt? index rest

end Token
end Asm6502
