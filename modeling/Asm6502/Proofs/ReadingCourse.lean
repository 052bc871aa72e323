import Asm6502.Proofs.PassageTexts

/-!
# The course of a reading

Between passages, reading either takes a candidate over or reads the next
passage whole; in the middle of a block there is no choice.  So a reading is a
course of such steps, and what holds of every course holds of every reading.
-/

namespace Asm6502

theorem Bytes.hasAtLeast_iff (count : Nat) (text : Bytes) :
    text.hasAtLeast count = true ↔ count ≤ text.length := by
  induction count generalizing text with
  | zero => simp [hasAtLeast]
  | succ count ih =>
      cases text with
      | nil => simp [hasAtLeast]
      | cons byte rest => simp [hasAtLeast, ih]

/-- The candidate that is found starts at the offset and fits into the rest;
those before it start earlier. -/
theorem Candidate.next?_eq_some {offset : Nat} {rest : Bytes}
    {candidates others : List Candidate} {candidate : Candidate}
    (found : next? offset rest candidates = some (candidate, others)) :
    ∃ before, candidates = before ++ candidate :: others ∧
      (∀ earlier ∈ before, earlier.start < offset) ∧ candidate.start = offset ∧
      0 < candidate.tree.length ∧ candidate.tree.length ≤ rest.length := by
  unfold next? at found
  split at found
  · contradiction
  · next first behind dropped =>
      dsimp only at found
      split at found
      · next fits =>
          simp only [Option.some.injEq, Prod.mk.injEq] at found
          obtain ⟨rfl, rfl⟩ := found
          simp only [Bool.and_eq_true, decide_eq_true_eq, Bytes.hasAtLeast_iff] at fits
          refine ⟨candidates.takeWhile fun candidate => candidate.start < offset,
            ?_, ?_, fits.1.1, fits.1.2, fits.2⟩
          · rw [← dropped, List.takeWhile_append_dropWhile]
          · intro earlier member
            have passed := List.all_eq_true.mp List.all_takeWhile earlier member
            simpa using passed
      · contradiction

namespace Reading

open Token

variable {dialect : Dialect} {stopAfter : Option Nat}

/-- Read the rest of a text and close what is still open. -/
def complete (dialect : Dialect) (stopAfter : Option Nat) (text : Bytes)
    (reading : Reading) : Reading :=
  (readFrom dialect stopAfter 0 text reading).close

theorem readFrom_skip (skip : Nat) (text : Bytes) (reading : Reading) :
    readFrom dialect stopAfter skip text reading =
      readFrom dialect stopAfter 0 (text.drop skip) reading := by
  induction text generalizing skip with
  | nil => simp [readFrom]
  | cons byte rest ih =>
      cases skip with
      | zero => rfl
      | succ skip => simpa [readFrom] using ih skip

theorem readFrom_of_isStopped {text : Bytes} {reading : Reading}
    (stopped : reading.isStopped stopAfter = true) :
    readFrom dialect stopAfter 0 text reading = reading := by
  cases text with
  | nil => rfl
  | cons byte rest => simp [readFrom, stopped]

theorem readFrom_of_advance {text : Bytes} {reading next : Reading} {taken : Nat}
    (nonempty : text ≠ []) (runs : reading.isStopped stopAfter = false)
    (advanced : reading.advance dialect text = next)
    (offset : next.offset = reading.offset + taken) (positive : 0 < taken) :
    readFrom dialect stopAfter 0 text reading =
      readFrom dialect stopAfter 0 (text.drop taken) next := by
  obtain ⟨byte, rest, rfl⟩ := List.exists_cons_of_ne_nil nonempty
  obtain ⟨count, rfl⟩ := Nat.exists_eq_add_of_lt positive
  have skipped : next.offset - reading.offset - 1 = count := by omega
  rw [readFrom, runs, if_neg (by simp)]
  simp only [advanced, skipped]
  rw [readFrom_skip]
  simp

theorem reusable?_of_open {text : Bytes} {reading : Reading}
    (isOpen : reading.sketch.opened ≠ []) : reading.reusable? text = none := by
  rw [reusable?, if_neg (by simpa using isOpen)]

theorem complete_of_splice {text : Bytes} {reading : Reading} {candidate : Candidate}
    {others : List Candidate} (runs : reading.isStopped stopAfter = false)
    (found : reading.reusable? text = some (candidate, others)) :
    complete dialect stopAfter text reading =
      complete dialect stopAfter (text.drop candidate.tree.length)
        (reading.splice candidate others) := by
  have fits : 0 < candidate.tree.length ∧ candidate.tree.length ≤ text.length := by
    unfold reusable? at found
    split at found
    · obtain ⟨-, -, -, -, positive, inside⟩ := Candidate.next?_eq_some found
      exact ⟨positive, inside⟩
    · contradiction
  have nonempty : text ≠ [] := by
    rintro rfl
    simp only [List.length_nil] at fits
    omega
  have advanced : reading.advance dialect text = reading.splice candidate others := by
    rw [advance, found]
  rw [complete, readFrom_of_advance nonempty runs advanced rfl fits.1]
  rfl

theorem offset_closeBlocks (blocks : List OpenBlock) (reading : Reading) :
    (closeBlocks blocks reading).offset = reading.offset := by
  induction blocks generalizing reading with
  | nil => rfl
  | cons openBlock outer ih => rw [closeBlocks, ih]

theorem isClosed_close (reading : Reading) : reading.close.IsClosed := by
  rw [close]
  generalize blocksEq : reading.sketch.tags = blocks
  induction blocks generalizing reading with
  | nil => exact List.map_eq_nil_iff.mp blocksEq
  | cons openBlock outer ih =>
      apply ih
      rw [Sketch.tags_leave, blocksEq, List.tail_cons]

theorem length_pos_of_line (dialect : Dialect) {text : Bytes} (nonempty : text ≠ []) :
    0 < totalLength (Scan.line dialect text) := by
  have lineIn : Scan.line dialect text ∈ lines (Scan.scan dialect text) := by
    rw [Scan.lines_scan dialect nonempty]
    exact List.mem_cons_self
  obtain ⟨isLine, scanned⟩ := Scan.lines_scan_shape dialect lineIn
  exact length_pos_of_isLine scanned isLine

theorem complete_of_addLine {text : Bytes} {reading : Reading} (nonempty : text ≠ [])
    (runs : reading.isStopped stopAfter = false)
    (noneFits : reading.reusable? text = none) :
    complete dialect stopAfter text reading =
      complete dialect stopAfter (text.drop (totalLength (Scan.line dialect text)))
        (reading.addLine dialect (Scan.line dialect text)) := by
  have advanced : reading.advance dialect text =
      reading.addLine dialect (Scan.line dialect text) := by
    rw [advance, noneFits]
  have positive := length_pos_of_line dialect nonempty
  rw [complete, readFrom_of_advance nonempty runs advanced rfl positive]
  rfl

theorem opened_followedBy {base reading : Reading} (isOpen : reading.sketch.opened ≠ []) :
    (base.followedBy reading).sketch.opened ≠ [] := by
  simpa [followedBy, Sketch.onto] using isOpen

theorem complete_of_underway {base reading passage : Reading} {others : List Reading}
    {text : Bytes} (runs : base.isStopped stopAfter = false)
    (goesOn : reading.sketch.opened ≠ [] ∨
      text ≠ [] ∧ (base.followedBy reading).reusable? text = none)
    (cut : passagesFrom dialect reading (lines (Scan.scan dialect text)) =
      passage :: others) :
    ∃ taken, passage.offset = reading.offset + taken ∧
      complete dialect stopAfter text (base.followedBy reading) =
        complete dialect stopAfter (text.drop taken) (base.followedBy passage) := by
  -- Behind the first line only the open block keeps candidates out.
  induction lengthEq : text.length using Nat.strongRecOn generalizing text reading with
  | ind length ih =>
      by_cases empty : text = []
      · subst text
        have isOpen := goesOn.resolve_right (by simp)
        have noLines : lines (Scan.scan dialect []) = [] := rfl
        rw [noLines, passagesFrom, if_neg (by simpa using isOpen)] at cut
        obtain ⟨rfl, rfl⟩ := List.cons.inj cut
        refine ⟨0, offset_closeBlocks _ _, ?_⟩
        rw [List.drop_zero, complete, complete, readFrom, readFrom, close_followedBy,
          close_followedBy, close_of_isClosed (isClosed_close reading)]
      · have noneFits : (base.followedBy reading).reusable? text = none := by
          rcases goesOn with isOpen | ⟨-, noneFits⟩
          · exact reusable?_of_open (opened_followedBy isOpen)
          · exact noneFits
        have next : complete dialect stopAfter text (base.followedBy reading) =
            complete dialect stopAfter
              (text.drop (totalLength (Scan.line dialect text)))
              (base.followedBy (reading.addLine dialect (Scan.line dialect text))) := by
          have stillRuns : (base.followedBy reading).isStopped stopAfter = false := runs
          rw [complete_of_addLine empty stillRuns noneFits, addLine_followedBy]
        rw [Scan.lines_scan dialect empty, passagesFrom_cons] at cut
        split at cut
        · obtain ⟨rfl, -⟩ := List.cons.inj cut
          exact ⟨_, rfl, next⟩
        · next isOpen =>
            have shorter : (text.drop (totalLength (Scan.line dialect text))).length <
                length := by
              have positive := length_pos_of_line dialect empty
              have nonempty := List.length_pos_iff.mpr empty
              rw [List.length_drop]
              omega
            obtain ⟨taken, offset, later⟩ :=
              ih _ shorter (.inl (by simpa using isOpen)) cut rfl
            refine ⟨totalLength (Scan.line dialect text) + taken, ?_, ?_⟩
            · rw [offset, Reading.addLine, Nat.add_assoc]
            · rw [next, later, List.drop_drop]

theorem complete_of_passage {base passage : Reading} {others : List Reading}
    {text : Bytes} (closed : base.IsClosed) (runs : base.isStopped stopAfter = false)
    (noneFits : base.reusable? text = none)
    (cut : passages dialect text = passage :: others) :
    complete dialect stopAfter text base =
      complete dialect stopAfter (text.drop passage.offset) (base.followedBy passage) := by
  have nonempty : text ≠ [] := by
    intro empty
    rw [(passages_eq_nil_iff dialect).mpr empty] at cut
    contradiction
  obtain ⟨taken, offset, read⟩ := complete_of_underway runs
    (.inr ⟨nonempty, by rw [followedBy_empty closed]; exact noneFits⟩) cut
  obtain rfl : passage.offset = taken := by simpa using offset
  rwa [followedBy_empty closed] at read

/-- The readings that lead from one with no block open to the end of the text,
or to where reading stops. -/
inductive Course (dialect : Dialect) (stopAfter : Option Nat) :
    Bytes → Reading → Reading → Prop
  | ended (reading : Reading) : Course dialect stopAfter [] reading reading
  | stopped {text : Bytes} {reading : Reading} :
      reading.isStopped stopAfter = true → Course dialect stopAfter text reading reading
  | splice {text : Bytes} {reading last : Reading} {candidate : Candidate}
      {others : List Candidate} :
      reading.isStopped stopAfter = false →
        Candidate.next? reading.offset text reading.candidates =
            some (candidate, others) →
          Course dialect stopAfter (text.drop candidate.tree.length)
              (reading.splice candidate others) last →
            Course dialect stopAfter text reading last
  | passage {text : Bytes} {reading passage last : Reading} {others : List Reading} :
      reading.isStopped stopAfter = false →
        Candidate.next? reading.offset text reading.candidates = none →
          passages dialect text = passage :: others →
            Course dialect stopAfter (text.drop passage.offset)
                (reading.followedBy passage) last →
              Course dialect stopAfter text reading last

theorem isClosed_splice {reading : Reading} (closed : reading.IsClosed)
    (candidate : Candidate) (others : List Candidate) :
    (reading.splice candidate others).IsClosed := by
  rw [IsClosed] at closed ⊢
  simp [splice, Sketch.add, closed]

theorem isClosed_followedBy {passage : Reading} (closed : passage.IsClosed)
    (reading : Reading) : (reading.followedBy passage).IsClosed := by
  rw [IsClosed] at closed ⊢
  simp [followedBy, Sketch.onto, closed]

theorem reusable?_of_isClosed {reading : Reading} (closed : reading.IsClosed)
    (text : Bytes) :
    reading.reusable? text =
      Candidate.next? reading.offset text reading.candidates := by
  rw [reusable?, closed]
  rfl

/-- Every reading runs its course. -/
theorem course_complete (dialect : Dialect) (stopAfter : Option Nat) (text : Bytes)
    {reading : Reading} (closed : reading.IsClosed) :
    Course dialect stopAfter text reading (complete dialect stopAfter text reading) := by
  induction lengthEq : text.length using Nat.strongRecOn generalizing text reading with
  | ind length ih =>
      cases runs : reading.isStopped stopAfter with
      | true =>
          rw [complete, readFrom_of_isStopped runs, close_of_isClosed closed]
          exact .stopped runs
      | false =>
          by_cases empty : text = []
          · subst text
            rw [complete, readFrom, close_of_isClosed closed]
            exact .ended reading
          · have nonempty := List.length_pos_iff.mpr empty
            have reusable := reusable?_of_isClosed closed text
            cases found : Candidate.next? reading.offset text reading.candidates with
            | some both =>
                obtain ⟨candidate, others⟩ := both
                obtain ⟨-, -, -, -, positive, -⟩ := Candidate.next?_eq_some found
                rw [complete_of_splice runs (reusable.trans found)]
                refine .splice runs found (ih _ ?_ _ ?_ rfl)
                · rw [List.length_drop]
                  omega
                · exact isClosed_splice closed candidate others
            | none =>
                obtain ⟨passage, others, cut⟩ :=
                  List.exists_cons_of_ne_nil (mt (passages_eq_nil_iff dialect).mp empty)
                obtain ⟨own, tree, first⟩ := (firstPassage_of_cons cut).1
                have positive := first.whole.offset_pos
                rw [complete_of_passage closed runs (reusable.trans found) cut]
                refine .passage runs found cut (ih _ ?_ _ ?_ rfl)
                · rw [List.length_drop]
                  omega
                · exact isClosed_followedBy first.whole.isClosed reading

theorem course_ofText (dialect : Dialect) (stopAfter : Option Nat)
    (candidates : List Candidate) (text : Bytes) :
    Course dialect stopAfter text { candidates := candidates }
      (ofText dialect stopAfter candidates text) :=
  course_complete dialect stopAfter text rfl

end Reading
end Asm6502
