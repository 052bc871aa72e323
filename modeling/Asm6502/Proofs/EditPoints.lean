import Asm6502.Parse.Outcome
import Asm6502.Proofs.EditedTexts
import Mathlib.Data.List.Induction

/-!
# Points of edited texts

A point is found byte by byte, so the point behind an insertion depends on no more
than the point where it starts and on what is inserted.  Therefore the points of an
edit are those of the old text up to its start and those of the new text up to the end
of the replacement, and along a text points only grow.
-/

namespace Asm6502

namespace Point

/-- The point counts the newlines of what stands before it, and the bytes behind the
last of them. -/
structure Counts (point : Point) (before : Bytes) : Prop where
  row : point.row = before.count Byte.newline
  column : ∃ lines line, before = lines ++ line ∧ point.column = line.length ∧
    Byte.newline ∉ line ∧ ∀ byte ∈ lines.getLast?, byte = Byte.newline

/-- Rows are compared first, and columns within a row. -/
def Precedes (first second : Point) : Prop :=
  first.row < second.row ∨ first.row = second.row ∧ first.column < second.column

variable {text : Bytes} {first second : Nat}

theorem Precedes.ne {point other : Point} (precedes : point.Precedes other) :
    point ≠ other := by
  rintro rfl
  rcases precedes with lower | ⟨-, left⟩
  · exact Nat.lt_irrefl _ lower
  · exact Nat.lt_irrefl _ left

theorem atEnd_concat (text : Bytes) (byte : UInt8) :
    atEnd (text ++ [byte]) = (atEnd text).next byte := by
  rw [atEnd, List.foldl_append]
  rfl

theorem counts_atEnd (text : Bytes) : (atEnd text).Counts text := by
  induction text using List.reverseRecOn with
  | nil => exact ⟨rfl, [], [], rfl, rfl, by simp, by simp⟩
  | append_singleton text byte ih =>
      obtain ⟨row, lines, line, split, column, noNewline, ended⟩ := ih
      rw [atEnd_concat, next]
      by_cases newline : byte = Byte.newline
      · rw [if_pos newline, newline]
        exact ⟨by simp [row], text ++ [Byte.newline], [], by simp, rfl, by simp, by simp⟩
      · rw [if_neg newline]
        refine ⟨by simp [row, newline], lines, line ++ [byte], ?_, ?_, ?_,
          ended⟩
        · rw [split, List.append_assoc]
        · simp [column]
        · simp [noNewline, Ne.symm newline]

theorem row_add_column_le (text : Bytes) :
    (atEnd text).row + (atEnd text).column ≤ text.length := by
  induction text using List.reverseRecOn with
  | nil => exact Nat.le_refl _
  | append_singleton text byte ih =>
      rw [atEnd_concat, next, List.length_append, List.length_singleton]
      split
      · simp only
        omega
      · simp only
        omega

theorem column_atEnd (sameRow : (atEnd text).row = 0) :
    (atEnd text).column = text.length := by
  induction text using List.reverseRecOn with
  | nil => rfl
  | append_singleton text byte ih =>
      rw [atEnd_concat, next] at sameRow ⊢
      split at sameRow
      · contradiction
      · next noNewline =>
          rw [if_neg noNewline, List.length_append, ih sameRow]
          rfl

theorem behind_concat (point : Point) (inserted : Bytes) (byte : UInt8) :
    point.behind (inserted ++ [byte]) = (point.behind inserted).next byte := by
  simp only [behind, atEnd_concat, next]
  by_cases newline : byte = Byte.newline
  · by_cases sameRow : (atEnd inserted).row = 0 <;> simp [newline, sameRow, Nat.add_assoc]
  · by_cases sameRow : (atEnd inserted).row = 0 <;> simp [newline, sameRow, Nat.add_assoc]

theorem atEnd_append (text inserted : Bytes) :
    atEnd (text ++ inserted) = (atEnd text).behind inserted := by
  induction inserted using List.reverseRecOn with
  | nil => simp [behind, atEnd]
  | append_singleton inserted byte ih =>
      rw [← List.append_assoc, atEnd_concat, ih, behind_concat]

theorem precedes_behind (point : Point) {inserted : Bytes} (nonempty : inserted ≠ []) :
    point.Precedes (point.behind inserted) := by
  have positive := List.length_pos_iff.mpr nonempty
  by_cases sameRow : (atEnd inserted).row = 0
  · right
    have column := column_atEnd sameRow
    simp only [behind, sameRow, if_true, true_and]
    omega
  · left
    simp only [behind, sameRow, if_false]
    omega

theorem counts_ofOffset (text : Bytes) (offset : Nat) :
    (ofOffset text offset).Counts (text.take offset) :=
  counts_atEnd _

theorem row_add_column_ofOffset (text : Bytes) (offset : Nat) :
    (ofOffset text offset).row + (ofOffset text offset).column ≤ min offset text.length := by
  rw [← List.length_take]
  exact row_add_column_le _

theorem precedes_ofOffset (before : first < second) (inside : second ≤ text.length) :
    (ofOffset text first).Precedes (ofOffset text second) := by
  have between : (text.take second).drop first ≠ [] := by
    apply List.length_pos_iff.mp
    rw [List.length_drop, List.length_take]
    omega
  have split : text.take second = text.take first ++ (text.take second).drop first := by
    have whole := List.take_append_drop first (text.take second)
    rwa [List.take_take, Nat.min_eq_left (Nat.le_of_lt before), eq_comm] at whole
  rw [ofOffset, ofOffset, split, atEnd_append]
  exact precedes_behind _ between

theorem ofOffset_injective (firstInside : first ≤ text.length)
    (secondInside : second ≤ text.length) (same : ofOffset text first = ofOffset text second) :
    first = second := by
  rcases Nat.lt_trichotomy first second with before | equal | behind
  · exact absurd same (precedes_ofOffset before secondInside).ne
  · exact equal
  · exact absurd same.symm (precedes_ofOffset behind firstInside).ne

end Point

namespace Edit

/-- The edit that replaces a span says where the replacement stands in the old and in the
new text. -/
structure FollowsText (text new : Bytes) (span : Span) (edit : Edit) : Prop where
  start : edit.start = span.start
  oldEnd : edit.oldEnd = span.stop
  startPoint : edit.startPoint = Point.ofOffset text span.start
  startPoint_new : edit.startPoint = Point.ofOffset new span.start
  oldEndPoint : edit.oldEndPoint = Point.ofOffset text span.stop
  newEndPoint : edit.newEndPoint = Point.ofOffset new edit.newEnd
  /-- Behind the replacement stands what stood behind the span. -/
  behind : new.drop edit.newEnd = text.drop span.stop
  newEnd_le : edit.newEnd ≤ new.length
  delta : edit.delta = (new.length : Int) - text.length

/-- Offsets and points no greater than a limit, such as the one that 32 bits set, so that
none of them is cut where it is stored. -/
structure Within (limit : Nat) (edit : Edit) : Prop where
  start : edit.start ≤ limit
  oldEnd : edit.oldEnd ≤ limit
  newEnd : edit.newEnd ≤ limit
  startPoint : edit.startPoint.row + edit.startPoint.column ≤ limit
  oldEndPoint : edit.oldEndPoint.row + edit.oldEndPoint.column ≤ limit
  newEndPoint : edit.newEndPoint.row + edit.newEndPoint.column ≤ limit

variable {text replacement : Bytes} {span : Span}

theorem length_splice (ordered : span.start ≤ span.stop) (inside : span.stop ≤ text.length) :
    (splice text span replacement).length + span.stop =
      text.length + (span.start + replacement.length) := by
  simp only [splice, List.length_append, List.length_take, List.length_drop]
  omega

/-- Up to the end of the replacement stands what is in front of it, and the replacement. -/
theorem take_splice (inside : span.start ≤ text.length) :
    (splice text span replacement).take (span.start + replacement.length) =
      text.take span.start ++ replacement := by
  apply List.take_left'
  rw [List.length_append, List.length_take, Nat.min_eq_left inside]

theorem followsText_replace (ordered : span.start ≤ span.stop)
    (inside : span.stop ≤ text.length) :
    (replace text span replacement).FollowsText text (splice text span replacement) span := by
  have startInside := Nat.le_trans ordered inside
  have length : (splice text span replacement).length + span.stop =
      text.length + (span.start + replacement.length) := length_splice ordered inside
  have newEnd : (replace text span replacement).newEnd = span.start + replacement.length := rfl
  refine
    { start := rfl
      oldEnd := rfl
      startPoint := rfl
      startPoint_new := ?startPoint_new
      oldEndPoint := rfl
      newEndPoint := ?newEndPoint
      behind := ?behind
      newEnd_le := by omega
      delta := ?delta }
  case startPoint_new =>
    have front : ((splice text span replacement).drop 0).take span.start =
        (text.drop 0).take span.start := take_drop_splice startInside (by omega)
    rw [replace, Point.ofOffset, Point.ofOffset]
    exact congrArg Point.atEnd front.symm
  case newEndPoint =>
    rw [newEnd, Point.ofOffset, take_splice startInside, Point.atEnd_append]
    rfl
  case behind =>
    have behind : (splice text span replacement).drop
        (span.stop - span.stop + (span.start + replacement.length)) = text.drop span.stop :=
      drop_splice startInside (Nat.le_refl span.stop)
    rwa [Nat.sub_self, Nat.zero_add] at behind
  case delta =>
    rw [delta, newEnd]
    change ((span.start + replacement.length : Nat) : Int) - (span.stop : Int) = _
    omega

/-- An edit between two texts within a limit stays within it, and so do the replacement
and the point of its end. -/
theorem within_replace {limit : Nat} (ordered : span.start ≤ span.stop)
    (inside : span.stop ≤ text.length) (oldFits : text.length ≤ limit)
    (newFits : (splice text span replacement).length ≤ limit) :
    (replace text span replacement).Within limit ∧ replacement.length ≤ limit ∧
      (Point.atEnd replacement).row + (Point.atEnd replacement).column ≤ limit := by
  have follows : (replace text span replacement).FollowsText text
      (splice text span replacement) span := followsText_replace ordered inside
  have length : (splice text span replacement).length + span.stop =
      text.length + (span.start + replacement.length) := length_splice ordered inside
  have point (whole : Bytes) (fits : whole.length ≤ limit) (offset : Nat) :
      (Point.ofOffset whole offset).row + (Point.ofOffset whole offset).column ≤ limit :=
    Nat.le_trans (Point.row_add_column_ofOffset whole offset)
      (Nat.le_trans (Nat.min_le_right _ _) fits)
  have short : replacement.length ≤ limit := by omega
  refine
    ⟨{ start := Nat.le_trans (Nat.le_trans ordered inside) oldFits
       oldEnd := Nat.le_trans inside oldFits
       newEnd := Nat.le_trans follows.newEnd_le newFits
       startPoint := point text oldFits span.start
       oldEndPoint := point text oldFits span.stop
       newEndPoint := ?_ }, short, Nat.le_trans (Point.row_add_column_le replacement) short⟩
  rw [follows.newEndPoint]
  exact point _ newFits _

/-- The points of an edit follow the text, and the points of a text tell its offsets
apart.  Between texts that are not too long for 32 bits no number of an edit needs more. -/
theorem replace_follows_text (text : Bytes) :
    (∀ span replacement, span.start ≤ span.stop → span.stop ≤ text.length →
      (replace text span replacement).FollowsText text (splice text span replacement) span ∧
      (text.length ≤ maxTextLength →
        (splice text span replacement).length ≤ maxTextLength →
          (replace text span replacement).Within maxTextLength ∧
            replacement.length ≤ maxTextLength ∧
            (Point.atEnd replacement).row + (Point.atEnd replacement).column ≤
              maxTextLength)) ∧
    (∀ offset, (Point.ofOffset text offset).Counts (text.take offset) ∧
      (Point.ofOffset text offset).row + (Point.ofOffset text offset).column ≤
        min offset text.length) ∧
    (∀ first second, first < second → second ≤ text.length →
      (Point.ofOffset text first).Precedes (Point.ofOffset text second)) ∧
    ∀ first second, first ≤ text.length → second ≤ text.length →
      Point.ofOffset text first = Point.ofOffset text second → first = second :=
  ⟨fun _ _ ordered inside => ⟨followsText_replace ordered inside,
      fun oldFits newFits => within_replace ordered inside oldFits newFits⟩,
    fun offset => ⟨Point.counts_ofOffset text offset, Point.row_add_column_ofOffset text offset⟩,
    fun _ _ before inside => Point.precedes_ofOffset before inside,
    fun _ _ firstInside secondInside same =>
      Point.ofOffset_injective firstInside secondInside same⟩

/-- Two letters, of which the second is exchanged for three letters over as many lines. -/
theorem replace_follows_text_newLines :
    let text : Bytes := [0x61, 0x0a, 0x62, 0x0a]
    let replacement : Bytes := [0x63, 0x0a, 0x64, 0x0a, 0x65, 0x65]
    let edit := replace text ⟨2, 3⟩ replacement
    (2 ≤ 3 ∧ 3 ≤ text.length) ∧
      edit.FollowsText text (splice text ⟨2, 3⟩ replacement) ⟨2, 3⟩ ∧
      edit.Within maxTextLength ∧
      edit.newEndPoint = ⟨3, 2⟩ ∧
      (Point.ofOffset text 1).Precedes (Point.ofOffset text 2) ∧
      (Point.ofOffset text 4 = Point.ofOffset text 4 → 4 = 4) := by
  intro text replacement edit
  obtain ⟨follows, -, grows, apart⟩ := replace_follows_text text
  obtain ⟨follow, within⟩ := follows ⟨2, 3⟩ replacement (by decide) (by decide)
  obtain ⟨narrow, -⟩ := within (show 4 ≤ maxTextLength by decide)
    (show 9 ≤ maxTextLength by decide)
  exact ⟨by decide, follow, narrow, rfl,
    grows 1 2 (by decide) (by decide), apart 4 4 (by decide) (by decide)⟩

end Edit
end Asm6502
