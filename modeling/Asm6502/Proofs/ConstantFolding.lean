import Asm6502.Proofs.Constants
import Asm6502.Proofs.OperatorPowers
import Asm6502.Proofs.PrintedTerms
import Asm6502.Proofs.SelectedPlaces
import Asm6502.View.Statement

/-!
# Constant folding

An expression without symbols that is printed as the argument of a command is parsed to
a tree whose value is the one that the expression means.  The value is found through the
children of the nodes, with the operators told by the texts of their tokens, and unless
the tree is too high.
-/

namespace Asm6502

open List (Forall₂)
open Place View.Expression

namespace Term

end Term

namespace Term

variable (kind : Kind) (term inner operand left right argument : Term)
  (operator function : Token) (rest : List Written)

variable {operator function}

end Term

namespace View.Expression

open Arithmetic

variable {source : Bytes} {levels : Nat} {place child other operator function : Place}

end View.Expression

namespace Place

variable {root written : Written} {place : Place} {levels : Nat}

theorem Occurs.form? (occurs : Occurs root place written) (isNode : written.isToken = false) :
    View.Expression.form? place = View.Form.ofKind? written.kind := by
  rw [View.Expression.form?, occurs.isNode, isNode, occurs.kind]
  rfl

variable {left right operand : Term} {token : Token}

end Place

namespace Constant

open Arithmetic

variable {root : Written} {place : Place}

variable {levels : Nat}

end Constant

namespace Parse

variable {term : Term}

end Parse
end Asm6502
