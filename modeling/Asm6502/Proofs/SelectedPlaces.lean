import Asm6502.Proofs.TextPlaces
import Asm6502.View.Expression

/-!
# Selecting parts of written trees

Views pick children of a place by their kinds.  They pick the places of those parts that
the same choice picks from what stands at the place.
-/

namespace Asm6502

open List (Forall₂)

namespace Written

def nodesOf (accepts : Kind → Bool) (written : Written) : List Written :=
  written.children.filter fun part => !part.isToken && accepts part.kind

@[simp]
theorem nodesOf_leaf (accepts : Kind → Bool) (kind : Kind) (token : Token)
    (rest : List Written) :
    nodesOf accepts (.node kind (.leaf token :: rest)) = nodesOf accepts (.node kind rest) :=
  rfl

@[simp]
theorem nodesOf_nil (accepts : Kind → Bool) (kind : Kind) :
    nodesOf accepts (.node kind []) = [] :=
  rfl

/-- The first part that is a token of one of some kinds. -/
def tokenOf? (kinds : List Kind) (written : Written) : Option Written :=
  written.children.find? fun part => part.isToken && kinds.contains part.kind

def nodeOf? (accepts : Kind → Bool) (written : Written) : Option Written :=
  written.children.find? fun part => !part.isToken && accepts part.kind

end Written

namespace Place

variable {root written part : Written} {place : Place} {places : List Place}
  {parts : List Written} {holds : Place → Bool} {accepts : Written → Bool}

theorem forall₂_filter (same : ∀ place part, Occurs root place part → holds place = accepts part)
    (occur : Forall₂ (Occurs root) places parts) :
    Forall₂ (Occurs root) (places.filter holds) (parts.filter accepts) := by
  induction occur with
  | nil => exact .nil
  | cons first _ ih =>
      rw [List.filter_cons, List.filter_cons, same _ _ first]
      split
      · exact .cons first ih
      · exact ih

end Place
end Asm6502
