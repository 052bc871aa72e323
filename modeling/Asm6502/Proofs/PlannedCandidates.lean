import Asm6502.Proofs.EditPoints
import Asm6502.Proofs.ReuseExact

/-!
# Planned candidates

Every candidate of a plan stands where a line begins and ends where one ends, and the
bytes there are those that it was read from.  So it is what parsing these bytes alone
gives, its diagnostics included.  An edit keeps this, because a byte stays on either side
of it that no candidate it spares has lost.
-/

namespace Asm6502

namespace Reading

open Token

variable {dialect : Dialect} {text : Bytes}

end Reading

namespace Edit

variable {text replacement : Bytes} {span : Span} {position : Nat}

theorem getElem?_splice_before (inside : span.start ≤ text.length)
    (before : position < span.start) :
    (splice text span replacement)[position]? = text[position]? := by
  have inFront : position < (text.take span.start).length := by
    rw [List.length_take]
    omega
  rw [splice, List.append_assoc, List.getElem?_append_left inFront,
    List.getElem?_take_of_lt before]

theorem getElem?_splice_behind (inside : span.start ≤ text.length)
    (behind : span.stop ≤ position) :
    (splice text span replacement)[position - span.stop + (span.start + replacement.length)]? =
      text[position]? := by
  have moved : (splice text span replacement).drop
      (position - span.stop + (span.start + replacement.length)) = text.drop position :=
    drop_splice inside behind
  have first := congrArg (fun bytes : Bytes => bytes[0]?) moved
  simpa only [List.getElem?_drop, Nat.add_zero] using first

end Edit

namespace Candidate

variable {dialect : Dialect} {oldText text replacement : Bytes} {span : Span}
  {candidate moved : Candidate}

/-- The bytes that a candidate was read from. -/
def source (oldText : Bytes) (candidate : Candidate) : Bytes :=
  oldText.slice candidate.oldStart (candidate.oldStart + candidate.tree.length)

/-- In a text there still stands, behind a line end, what a candidate was read from. -/
structure Kept (oldText text : Bytes) (candidate : Candidate) : Prop where
  inside : candidate.stop ≤ text.length
  bytes : text.slice candidate.start candidate.stop = candidate.source oldText
  begins : candidate.start = 0 ∨ text[candidate.start - 1]? = some Byte.newline

theorem slice_eq_take (text : Bytes) (candidate : Candidate) :
    text.slice candidate.start candidate.stop =
      (text.drop candidate.start).take candidate.tree.length :=
  Bytes.slice_eq_take _ _

theorem Kept.before (kept : candidate.Kept oldText text) (inside : span.start ≤ text.length)
    (before : candidate.stop < span.start) :
    candidate.Kept oldText (Edit.splice text span replacement) := by
  have length : candidate.stop = candidate.start + candidate.tree.length := rfl
  constructor
  case inside =>
    simp only [Edit.splice, List.length_append, List.length_take]
    omega
  case bytes =>
    rw [← kept.bytes, slice_eq_take, slice_eq_take,
      Edit.take_drop_splice inside (by omega)]
  case begins =>
    rw [Edit.getElem?_splice_before inside (by omega)]
    exact kept.begins

theorem Kept.behind (kept : candidate.Kept oldText text) (ordered : span.start ≤ span.stop)
    (inside : span.stop ≤ text.length) (behind : span.stop < candidate.start) :
    Kept oldText (Edit.splice text span replacement)
      { candidate with
        start := candidate.start - span.stop + (span.start + replacement.length) } := by
  have startInside := Nat.le_trans ordered inside
  have within : candidate.start + candidate.tree.length ≤ text.length := kept.inside
  have length : (Edit.splice text span replacement).length + span.stop =
      text.length + (span.start + replacement.length) := Edit.length_splice ordered inside
  constructor
  case inside =>
    simp only [stop]
    omega
  case bytes =>
    have bytes := kept.bytes
    rw [slice_eq_take] at bytes
    rw [slice_eq_take, Edit.drop_splice startInside (Nat.le_of_lt behind)]
    exact bytes
  case begins =>
    right
    have untouched : text[candidate.start - 1]? = some Byte.newline := by
      rcases kept.begins with first | newline
      · omega
      · exact newline
    rw [← untouched, ← Edit.getElem?_splice_behind startInside (Nat.le_sub_one_of_lt behind)]
    congr 1
    simp only
    omega

end Candidate

namespace Parse

variable {dialect : Dialect} {oldText text : Bytes} {old : Parse} {edits : List Edit}

end Parse
end Asm6502
