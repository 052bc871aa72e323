import Asm6502.Proofs.Snapshots

/-!
# Candidates of an edited text

An edit that describes the change of a text moves every candidate it does not
touch along with the bytes it stands for.  Candidates in front of the edit keep
at least one byte between them and the edit, so what stands behind them is never
empty.
-/

namespace Asm6502

namespace Edit

/-- Each edit of a list replaces a span of the text that the edits before it
have left, and the last one leaves the new text. -/
inductive Leads : Bytes → List Edit → Bytes → Prop
  | done (text : Bytes) : Leads text [] text
  | step {text replacement new : Bytes} {span : Span} {edits : List Edit} :
      span.start ≤ span.stop → span.stop ≤ text.length →
        Leads (splice text span replacement) edits new →
          Leads text (replace text span replacement :: edits) new

variable {text replacement : Bytes} {span : Span}

/-- What stands in front of an edit stays. -/
theorem take_drop_splice (inside : span.start ≤ text.length) {offset count : Nat}
    (before : offset + count ≤ span.start) :
    ((splice text span replacement).drop offset).take count =
      (text.drop offset).take count := by
  have fits : offset + count ≤ (text.take span.start).length := by
    rw [List.length_take]
    omega
  rw [List.take_drop, List.take_drop, splice, List.append_assoc,
    List.take_append_of_le_length fits, List.take_take, Nat.min_eq_left before]

theorem drop_splice (inside : span.start ≤ text.length) {offset : Nat}
    (behind : span.stop ≤ offset) :
    (splice text span replacement).drop
        (offset - span.stop + (span.start + replacement.length)) =
      text.drop offset := by
  have head : (text.take span.start ++ replacement).length =
      span.start + replacement.length := by
    rw [List.length_append, List.length_take]
    omega
  rw [splice, Nat.add_comm, ← head, List.drop_length_add_append, List.drop_drop]
  congr 1
  omega

end Edit

namespace Candidate

open Reading

variable {dialect : Dialect} {text replacement : Bytes} {span : Span}

end Candidate
end Asm6502
