import Asm6502.Parse.Outcome
import Asm6502.Proofs.Snapshots
import Asm6502.Proofs.TreePlaces

/-!
# Children that are offered

A child of an old root is offered to a reparse when no edit touches it, ends
included.  The edits are applied in order, and a child behind an edit moves with
what stands around it; children that are left stay in order and apart.
-/

namespace Asm6502

namespace Tree

end Tree

namespace Edit

/-- What an edit replaces; its ends count as touched. -/
def reach (edit : Edit) : Span :=
  ⟨edit.start, edit.oldBound⟩

/-- Where a span that an edit misses stands after it. -/
def carry (edit : Edit) (span : Span) : Span :=
  if span.stop < edit.start then span else span.moved edit.oldBound edit.newBound

/-- Where a span stands after edits that spare it. -/
def carryAll? : List Edit → Span → Option Span
  | [], span => some span
  | edit :: edits, span =>
      if span.stop < edit.start ∨ edit.oldBound < span.start then
        carryAll? edits (edit.carry span)
      else none

end Edit

namespace Candidate

/-- Where a candidate stands now. -/
def span (candidate : Candidate) : Span :=
  ⟨candidate.start, candidate.stop⟩

end Candidate

namespace Parse

/-- The children of the root. -/
def topLevel (parse : Parse) : List Place :=
  Place.children ⟨parse.root, []⟩

/-- The children that can be offered; the last one of a parse that was cut short
cannot. -/
def offers (old : Parse) : List Place :=
  if old.cancelled then old.topLevel.dropLast else old.topLevel

/-- The children that the edits spare, each with the span where it stands after
them. -/
def offered (old : Parse) (edits : List Edit) : List (Place × Span) :=
  old.offers.filterMap fun child =>
    (Edit.carryAll? edits child.span).map fun span => (child, span)

end Parse
end Asm6502
