/-!
# Ranges of characters

A class of characters is a table of ranges of their numbers.  The ranges of a
table are disjoint and in ascending order, so a search can stop early.
-/

namespace Asm6502
namespace Ranges

/-- A number lies in one of the ranges, given in ascending order by their first
and last numbers. -/
def holds : (ranges : List (Nat × Nat)) → (number : Nat) → Bool
  | [], _ => false
  | (first, last) :: rest, number =>
      if number < first then false
      else if number ≤ last then true
      else holds rest number

end Ranges
end Asm6502
