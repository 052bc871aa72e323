import Asm6502.Command
import Asm6502.Proofs.CaseBlindness

/-!
# The line a diagnostic is shown on

A diagnostic counts the bytes of the text that was parsed, and it is shown over the text
for display.  That text is made part by part: a part that is a character keeps its length,
and an undecodable part gets as long as the replacement character, which is never less.
So the line that is shown is at most the line of the error, and it is that line if the
bytes up to the error are valid.  Behind undecodable bytes the offset can fall short of
the line.
-/

namespace Asm6502

namespace Point

theorem row_foldl_next (text : Bytes) (point : Point) :
    (text.foldl next point).row = point.row + text.count Byte.newline := by
  induction text generalizing point with
  | nil => rfl
  | cons byte text ih =>
      rw [List.foldl_cons, ih, next, List.count_cons]
      by_cases newline : byte = Byte.newline
      · rw [if_pos newline, if_pos (beq_iff_eq.mpr newline)]
        exact Nat.add_right_comm _ _ _
      · rw [if_neg newline, if_neg (by simpa using newline)]
        rfl

theorem row_ofOffset (text : Bytes) (offset : Nat) :
    (ofOffset text offset).row = (text.take offset).count Byte.newline := by
  rw [ofOffset, atEnd, row_foldl_next, Nat.zero_add]

end Point

namespace Utf8

/-- A part of a text and the character that is displayed for it. -/
structure IsShownAs (part : Bytes) (char : Char) : Prop where
  nonempty : part ≠ []
  length_le : part.length ≤ size char
  newlines : part.count Byte.newline = [char].count '\n'

/-- A text and the characters that are displayed for it, part by part. -/
inductive AreShownAs : Bytes → List Char → Prop
  | nil : AreShownAs [] []
  | part {part rest : Bytes} {char : Char} {chars : List Char} :
      IsShownAs part char → AreShownAs rest chars → AreShownAs (part ++ rest) (char :: chars)

/-- The characters displayed for a text. -/
def shown (text : Bytes) : List Char :=
  (chars text).map fun char? => char?.getD replacement

theorem toList_decode (text : Bytes) : (decode text).toList = shown text := by
  rw [decode, String.toList_ofList, shown]

theorem toNat_ofNat {number : Nat} (valid : number.isValidChar) :
    (Char.ofNat number).toNat = number := by
  rw [Char.ofNat, dif_pos valid]
  rfl

theorem size_ofNat {number : Nat} (valid : number.isValidChar) :
    size (Char.ofNat number) =
      if number ≤ 0x7f then 1 else if number ≤ 0x7ff then 2
      else if number ≤ 0xffff then 3 else 4 := by
  simp only [size, Char.utf8Size, UInt32.le_iff_toNat_le]
  change (if (Char.ofNat number).toNat ≤ 0x7f then 1
    else if (Char.ofNat number).toNat ≤ 0x7ff then 2
    else if (Char.ofNat number).toNat ≤ 0xffff then 3 else 4) = _
  rw [toNat_ofNat valid]

theorem size_codePoint {first : UInt8} {width : Nat} {rest : Bytes}
    (high : 0x80 ≤ first.toNat) (found : width? first = some width)
    (complete : tailLength first width rest + 1 = width) :
    size (Char.ofNat (codePoint first width (rest.take (tailLength first width rest)))) =
      width := by
  have numbers := codePoint_cases high found complete rfl
  generalize codePoint first width (rest.take (tailLength first width rest)) = number at numbers
  rw [size_ofNat (by rw [Nat.isValidChar]; omega)]
  split_ifs <;> omega

theorem tailLength_cases (first : UInt8) (width : Nat) (rest : Bytes) :
    tailLength first width rest = 0 ∨
      ∃ second run, rest.take (tailLength first width rest) = second :: run ∧
        tailLength first width rest = run.length + 1 ∧ run.length + 2 ≤ width ∧
          allowsSecond first second = true ∧ ∀ byte ∈ run, isContinuation byte = true := by
  cases rest with
  | nil => exact .inl rfl
  | cons second others =>
      rw [tailLength]
      split
      · exact .inl rfl
      · next allowed =>
          right
          simp only [Bool.or_eq_true, decide_eq_true_eq, Bool.not_eq_true', not_or,
            Bool.not_eq_false] at allowed
          have begins : (others.take (width - 2)).takeWhile isContinuation <+: others :=
            (List.takeWhile_prefix _).trans (List.take_prefix _ _)
          have bounded := Nat.le_trans
            (List.takeWhile_prefix isContinuation : _ <+: others.take (width - 2)).length_le
            (List.length_take_le _ _)
          refine ⟨second, (others.take (width - 2)).takeWhile isContinuation, ?_, rfl, by omega,
            allowed.2, fun byte member => ?_⟩
          · rw [List.take_succ_cons, ← List.prefix_iff_eq_take.mp begins]
          · exact List.all_eq_true.mp List.all_takeWhile byte member

theorem count_newline_of_high {first : UInt8} {width : Nat} {rest : Bytes}
    (high : 0x80 ≤ first.toNat) :
    (first :: rest.take (tailLength first width rest)).count Byte.newline = 0 := by
  have differs : ∀ byte : UInt8, 0x80 ≤ byte.toNat → Byte.newline ≠ byte := by
    rintro byte large rfl
    exact absurd large (by decide)
  rw [List.count_eq_zero, List.mem_cons, not_or]
  refine ⟨differs first high, fun member => ?_⟩
  rcases tailLength_cases first width rest with none | ⟨second, run, tail, -, -, allowed, continues⟩
  · rw [none] at member
    cases member
  · rw [tail] at member
    rcases List.mem_cons.mp member with same | later
    · exact differs second (high_of_allowsSecond allowed).1.1 same
    · exact differs _ (high_of_isContinuation (continues _ later)).1 rfl

theorem length_take_tailLength (first : UInt8) (width : Nat) (rest : Bytes) :
    (rest.take (tailLength first width rest)).length = tailLength first width rest := by
  rcases tailLength_cases first width rest with none | ⟨second, run, tail, length, -⟩
  · rw [none]
    rfl
  · rw [tail, length, List.length_cons]

theorem tailLength_lt {first : UInt8} {width : Nat} {rest : Bytes} (positive : 0 < width) :
    tailLength first width rest < width := by
  rcases tailLength_cases first width rest with none | ⟨second, run, -, length, short, -⟩ <;> omega

theorem count_newline_of_ne {char : Char} (differs : char ≠ '\n') : [char].count '\n' = 0 :=
  List.count_eq_zero.mpr fun member => differs (List.mem_singleton.mp member).symm

theorem isShownAs_ascii {byte : UInt8} (ascii : byte.toNat < 0x80) :
    IsShownAs [byte] (Byte.char byte) ∧ size (Byte.char byte) = 1 := by
  have single : size (Byte.char byte) = 1 := by
    rw [Byte.char, size_ofNat (.inl (by omega)), if_pos (by omega)]
  refine ⟨⟨List.cons_ne_nil _ _, Nat.le_of_eq single.symm, ?_⟩, single⟩
  by_cases newline : byte = Byte.newline
  · rw [newline]
    decide
  · rw [count_newline_of_ne, List.count_eq_zero]
    · exact fun member => newline (List.mem_singleton.mp member).symm
    · intro same
      have number : byte.toNat = 10 := by
        rw [← Byte.toNat_char byte, same]
        rfl
      exact newline (UInt8.toNat_inj.mp number)

theorem isShownAs_char {part : Bytes} {char : Char} (several : 2 ≤ part.length)
    (length : part.length = size char) (newlines : part.count Byte.newline = 0) :
    IsShownAs part char := by
  refine ⟨List.ne_nil_of_length_pos (by omega), Nat.le_of_eq length, ?_⟩
  rw [newlines, count_newline_of_ne]
  rintro rfl
  have single : size '\n' = 1 := rfl
  omega

theorem isShownAs_replacement {part : Bytes} (nonempty : part ≠ []) (short : part.length ≤ 3)
    (newlines : part.count Byte.newline = 0) : IsShownAs part replacement where
  nonempty := nonempty
  length_le := short
  newlines := newlines.trans (count_newline_of_ne (by decide)).symm

/-- The part that begins a text is displayed.  If it is a character, it has the length of
what is displayed. -/
theorem next_isShownAs (first : UInt8) (rest : Bytes) :
    IsShownAs (first :: rest.take (next first rest).2)
        ((next first rest).1.getD replacement) ∧
      ∀ char ∈ (next first rest).1,
        (first :: rest.take (next first rest).2).length = size char := by
  by_cases ascii : first.toNat < 0x80
  · rw [next_of_ascii ascii]
    obtain ⟨shown, single⟩ := isShownAs_ascii ascii
    refine ⟨shown, fun char isChar => ?_⟩
    obtain rfl := Option.some.inj isChar
    exact single.symm
  · have high : 0x80 ≤ first.toNat := Nat.le_of_not_lt ascii
    rw [next]
    cases found : width? first with
    | none =>
        have alone : [first].count Byte.newline = 0 :=
          @count_newline_of_high first 0 [] high
        exact ⟨isShownAs_replacement (List.cons_ne_nil _ _) (Nat.le_add_left 1 2) alone,
          fun char isChar => absurd isChar (Option.not_mem_none char)⟩
    | some width =>
        have widths := width?_cases found high
        have short : tailLength first width rest < width := tailLength_lt (by omega)
        have length : (first :: rest.take (tailLength first width rest)).length =
            tailLength first width rest + 1 := by
          rw [List.length_cons, length_take_tailLength]
        by_cases complete : tailLength first width rest + 1 = width
        · simp only [if_pos complete]
          have sizes := size_codePoint high found complete
          refine ⟨isShownAs_char (by omega) ?_ (count_newline_of_high high), ?_⟩
          · rw [Option.getD_some, sizes, length, complete]
          · intro char isChar
            obtain rfl := Option.some.inj isChar
            rw [sizes, length, complete]
        · simp only [if_neg complete]
          exact ⟨isShownAs_replacement (List.cons_ne_nil _ _) (by omega)
            (count_newline_of_high high),
            fun char isChar => absurd isChar (Option.not_mem_none char)⟩

theorem charsFrom_eq_drop (skip : Nat) (text : Bytes) :
    charsFrom skip text = charsFrom 0 (text.drop skip) := by
  induction text generalizing skip with
  | nil => cases skip <;> rfl
  | cons first rest ih =>
      cases skip with
      | zero => rfl
      | succ skip => exact ih skip

theorem chars_cons (first : UInt8) (rest : Bytes) :
    chars (first :: rest) =
      (next first rest).1 :: chars (rest.drop (next first rest).2) := by
  change (next first rest).1 :: charsFrom (next first rest).2 rest = _
  rw [charsFrom_eq_drop]
  rfl

/-- Texts are displayed part by part, and valid ones at their own length. -/
theorem areShownAs_shown (text : Bytes) :
    AreShownAs text (shown text) ∧
      (isValid text = true → totalSize (shown text) = text.length) := by
  match text with
  | [] => exact ⟨.nil, fun _ => rfl⟩
  | first :: rest =>
      obtain ⟨begins, sizes⟩ := next_isShownAs first rest
      obtain ⟨others, whole⟩ := areShownAs_shown (rest.drop (next first rest).2)
      have split : first :: rest = (first :: rest.take (next first rest).2) ++
          rest.drop (next first rest).2 := by
        rw [List.cons_append, List.take_append_drop]
      rw [shown, chars_cons, List.map_cons]
      constructor
      · rw [split]
        exact .part begins others
      · intro valid
        rw [isValid, chars_cons, List.all_cons, Bool.and_eq_true] at valid
        obtain ⟨char, isChar⟩ := Option.isSome_iff_exists.mp valid.1
        have behind := whole valid.2
        rw [shown] at behind
        rw [totalSize, behind, isChar, Option.getD_some, ← sizes char isChar]
        conv_rhs => rw [split]
        rw [List.length_append]
termination_by text.length
decreasing_by
  rw [List.length_cons, List.length_drop]
  omega

theorem tailLength_append {first : UInt8} {width : Nat} {rest : Bytes}
    (complete : tailLength first width rest + 1 = width) (more : Bytes) :
    tailLength first width (rest ++ more) = tailLength first width rest := by
  cases rest with
  | nil =>
      have alone : width ≤ 1 := Nat.le_of_eq complete.symm
      cases more with
      | nil => rfl
      | cons byte more =>
          simp [tailLength, alone]
  | cons second others =>
      rw [List.cons_append, tailLength, tailLength]
      rw [tailLength] at complete
      split at complete
      · next refused => rw [if_pos refused, if_pos refused]
      · next allowed =>
          have run := (List.takeWhile_prefix isContinuation :
            _ <+: others.take (width - 2)).length_le
          rw [List.length_take] at run
          rw [if_neg allowed, if_neg allowed, List.take_append_of_le_length (by omega)]

theorem count_le (first : UInt8) (rest : Bytes) : (next first rest).2 ≤ rest.length := by
  have tail (width : Nat) : tailLength first width rest ≤ rest.length := by
    rw [← length_take_tailLength first width rest]
    exact List.length_take_le' _ _
  rw [next]
  cases width? first with
  | none => exact Nat.zero_le _
  | some width =>
      simp only
      split <;> exact tail width

theorem next_append {first : UInt8} {rest : Bytes} (isChar : (next first rest).1.isSome = true)
    (more : Bytes) : next first (rest ++ more) = next first rest := by
  have within := count_le first rest
  rw [next] at isChar within ⊢
  rw [next]
  cases found : width? first with
  | none => rfl
  | some width =>
      simp only [found] at isChar within ⊢
      by_cases complete : tailLength first width rest + 1 = width
      · rw [if_pos complete] at within
        rw [tailLength_append complete, List.take_append_of_le_length within]
      · rw [if_neg complete] at isChar
        cases isChar

theorem chars_append {text : Bytes} (valid : isValid text = true) (more : Bytes) :
    chars (text ++ more) = chars text ++ chars more := by
  match text with
  | [] => rfl
  | first :: rest =>
      rw [isValid, chars_cons, List.all_cons, Bool.and_eq_true] at valid
      rw [List.cons_append, chars_cons, chars_cons, next_append valid.1, List.cons_append,
        List.drop_append_of_le_length (count_le first rest), chars_append valid.2]
termination_by text.length
decreasing_by
  rw [List.length_cons, List.length_drop]
  omega

theorem shown_append {text : Bytes} (valid : isValid text = true) (more : Bytes) :
    shown (text ++ more) = shown text ++ shown more := by
  rw [shown, chars_append valid, List.map_append]
  rfl

theorem size_pos (char : Char) : 0 < size char :=
  char.utf8Size_pos

variable {text : Bytes} {characters : List Char}

theorem AreShownAs.length_le (shown : AreShownAs text characters) :
    text.length ≤ totalSize characters := by
  induction shown with
  | nil => exact Nat.le_refl _
  | part begins _ ih =>
      rw [List.length_append, totalSize]
      exact Nat.add_le_add begins.length_le ih

theorem take_part {part : Bytes} {offset : Nat} (within : part.length ≤ offset) (rest : Bytes) :
    (part ++ rest).take offset = part ++ rest.take (offset - part.length) := by
  rw [List.take_append, List.take_of_length_le within]

/-- What is displayed before an offset has no more newlines than the text before it. -/
theorem AreShownAs.count_le (shown : AreShownAs text characters) (offset : Nat) :
    (characters.take (charsBefore characters offset)).count '\n' ≤
      (text.take offset).count Byte.newline := by
  induction shown generalizing offset with
  | nil => exact Nat.zero_le _
  | @part part rest char characters begins _ ih =>
      rw [charsBefore]
      split
      · next within =>
          have shorter : offset - size char ≤ offset - part.length :=
            Nat.sub_le_sub_left begins.length_le offset
          have nested := List.take_sublist_take_left shorter (l := rest)
          rw [List.take_succ_cons, ← List.singleton_append, List.count_append, ← begins.newlines,
            take_part (Nat.le_trans begins.length_le within), List.count_append]
          exact Nat.add_le_add_left (Nat.le_trans (ih _) (nested.count_le _)) _
      · exact Nat.zero_le _

theorem IsShownAs.count_take {part : Bytes} {char : Char} (begins : IsShownAs part char)
    {offset : Nat} (inside : offset < size char) :
    (part.take offset).count Byte.newline = 0 := by
  by_cases newline : char = '\n'
  · have single : size '\n' = 1 := rfl
    obtain rfl : offset = 0 := by
      rw [newline, single] at inside
      omega
    rfl
  · have none : part.count Byte.newline = 0 :=
      begins.newlines.trans (count_newline_of_ne newline)
    exact Nat.eq_zero_of_le_zero (none ▸ (List.take_sublist offset part).count_le _)

/-- They are as many if every part is as long as what is displayed for it. -/
theorem AreShownAs.count_eq (shown : AreShownAs text characters)
    (same : totalSize characters = text.length) {offset : Nat} (within : offset ≤ text.length) :
    (characters.take (charsBefore characters offset)).count '\n' =
      (text.take offset).count Byte.newline := by
  induction shown generalizing offset with
  | nil => rw [List.take_nil, List.take_nil, List.count_nil, List.count_nil]
  | @part part rest char characters begins others ih =>
      rw [totalSize, List.length_append] at same
      rw [List.length_append] at within
      have length := begins.length_le
      have behind := others.length_le
      rw [charsBefore]
      split
      · next fits =>
          rw [List.take_succ_cons, ← List.singleton_append, List.count_append, ← begins.newlines,
            take_part (by omega), List.count_append, ih (by omega) (by omega),
            (by omega : size char = part.length)]
      · next inside =>
          rw [List.take_append_of_le_length (by omega), begins.count_take (by omega)]
          rfl

theorem charsBefore_append {first : List Char} {offset : Nat} (within : offset ≤ totalSize first)
    (second : List Char) :
    (first ++ second).take (charsBefore (first ++ second) offset) =
      first.take (charsBefore first offset) := by
  induction first generalizing offset with
  | nil =>
      obtain rfl : offset = 0 := Nat.eq_zero_of_le_zero within
      cases second with
      | nil => rfl
      | cons char second =>
          rw [List.nil_append, charsBefore, charsBefore, if_neg (Nat.not_le.mpr (size_pos char))]
          rfl
  | cons char first ih =>
      rw [totalSize] at within
      rw [List.cons_append, charsBefore, charsBefore]
      split
      · next fits => rw [List.take_succ_cons, List.take_succ_cons, ih (by omega)]
      · rfl

/-- Whether an offset is at the start of a character or at the end of a text. -/
def isBoundary : List Char → (offset : Nat) → Bool
  | _, 0 => true
  | [], _ + 1 => false
  | char :: rest, offset + 1 =>
      size char ≤ offset + 1 && isBoundary rest (offset + 1 - size char)

/-- The last boundary that does not lie behind an offset. -/
def floor (text : List Char) : (offset : Nat) → Nat
  | 0 => 0
  | offset + 1 => if isBoundary text (offset + 1) then offset + 1 else floor text offset

/-- An offset brought inside a text and to the start of a character. -/
def snap (text : List Char) (offset : Nat) : Nat :=
  floor text (min offset (totalSize text))

theorem charsBefore_succ {text : List Char} {offset : Nat}
    (inner : isBoundary text (offset + 1) = false) :
    charsBefore text (offset + 1) = charsBefore text offset := by
  induction text generalizing offset with
  | nil => rfl
  | cons char rest ih =>
      rw [isBoundary, Bool.and_eq_false_iff, decide_eq_false_iff_not] at inner
      rw [charsBefore, charsBefore]
      by_cases passes : size char ≤ offset + 1
      · have behind := inner.resolve_left (not_not.mpr passes)
        have strictly : size char ≤ offset := by
          by_contra beyond
          have whole : offset + 1 - size char = 0 := by omega
          rw [whole, isBoundary] at behind
          cases behind
        rw [Nat.sub_add_comm strictly] at behind ⊢
        rw [if_pos passes, if_pos strictly, ih behind]
      · rw [if_neg passes, if_neg (by omega)]

theorem charsBefore_floor (text : List Char) (offset : Nat) :
    charsBefore text (floor text offset) = charsBefore text offset := by
  induction offset with
  | zero => rfl
  | succ offset ih =>
      rw [floor]
      split
      · rfl
      · next inner => rw [ih, charsBefore_succ (Bool.eq_false_iff.mpr inner)]

theorem charsBefore_min (text : List Char) (offset : Nat) :
    charsBefore text (min offset (totalSize text)) = charsBefore text offset := by
  induction text generalizing offset with
  | nil => rfl
  | cons char rest ih =>
      rw [charsBefore, charsBefore, totalSize]
      by_cases passes : size char ≤ offset
      · have left : min offset (size char + totalSize rest) - size char =
            min (offset - size char) (totalSize rest) := by omega
        rw [if_pos passes, if_pos (by omega), left, ih]
      · rw [if_neg passes, if_neg (by omega)]

/-- A character that begins before an offset and ends behind it is not passed, so nothing
changes when the offset is brought to its start. -/
theorem charsBefore_snap (text : List Char) (offset : Nat) :
    charsBefore text (snap text offset) = charsBefore text offset := by
  rw [snap, charsBefore_floor, charsBefore_min]

/-- How many newlines are displayed before an offset. -/
def newlinesBefore (characters : List Char) (offset : Nat) : Nat :=
  (characters.take (charsBefore characters offset)).count '\n'

theorem newlinesBefore_le (text : Bytes) (offset : Nat) :
    newlinesBefore (shown text) offset ≤ (Point.ofOffset text offset).row := by
  rw [Point.row_ofOffset]
  exact (areShownAs_shown text).1.count_le offset

theorem newlinesBefore_eq {before : Bytes} (valid : isValid before = true) {offset : Nat}
    (within : offset ≤ before.length) (rest : Bytes) :
    newlinesBefore (shown (before ++ rest)) offset =
      (Point.ofOffset (before ++ rest) offset).row := by
  obtain ⟨parts, same⟩ := areShownAs_shown before
  rw [newlinesBefore, shown_append valid, charsBefore_append (same valid ▸ within),
    parts.count_eq (same valid) within, Point.row_ofOffset, List.take_append_of_le_length within]

end Utf8

namespace Landing

variable (offset number before : Nat) (line rest : List Char)

theorem number_find :
    (find offset number line before rest).number =
      number + Utf8.newlinesBefore rest offset := by
  induction rest generalizing offset number before line with
  | nil => rfl
  | cons char rest ih =>
      rw [find, Utf8.newlinesBefore, Utf8.charsBefore]
      by_cases inside : offset < Utf8.size char
      · rw [if_pos inside, if_neg (Nat.not_le.mpr inside)]
        rfl
      · rw [if_neg inside, if_pos (Nat.le_of_not_lt inside), List.take_succ_cons,
          ← List.singleton_append, List.count_append]
        by_cases newline : char = '\n'
        · rw [if_pos newline, ih, newline, Nat.add_assoc]
          rfl
        · rw [if_neg newline, ih, Utf8.count_newline_of_ne newline, Nat.zero_add]
          rfl

theorem number_ofOffset (text : List Char) :
    (ofOffset text offset).number = Utf8.newlinesBefore text offset + 1 := by
  rw [ofOffset, number_find, Nat.add_comm]

variable {before line rest}

theorem drop_find (place : line.drop before = rest) (within : before ≤ line.length) :
    (find offset number line before rest).line.drop
        (find offset number line before rest).before =
          (find offset number line before rest).rest ∧
      (find offset number line before rest).before ≤
        (find offset number line before rest).line.length := by
  induction rest generalizing offset number before line with
  | nil => exact ⟨place, within⟩
  | cons char rest ih =>
      rw [find]
      split
      · exact ⟨place, within⟩
      · split
        · exact ih _ _ rfl (Nat.zero_le _)
        · have behind : line.drop (before + 1) = rest := by
            rw [← List.drop_drop, place]
            rfl
          have further : before < line.length := by
            have length := congrArg List.length place
            rw [List.length_drop, List.length_cons] at length
            omega
          exact ih _ _ behind further

end Landing

namespace Snippet

theorem splitLines_newline (rest : List Char) :
    splitLines ('\n' :: rest) = [] :: splitLines rest := by
  rw [splitLines, if_pos rfl]

theorem splitLines_ne_nil {text : List Char} (nonempty : text ≠ []) : splitLines text ≠ [] := by
  obtain ⟨char, rest, rfl⟩ := List.exists_cons_of_ne_nil nonempty
  rw [splitLines]
  split
  · exact List.cons_ne_nil _ _
  · split
    · next return_ =>
        simp only [Bool.and_eq_true, decide_eq_true_eq] at return_
        obtain ⟨behind, rfl⟩ := List.head?_eq_some_iff.mp return_.2
        rw [splitLines_newline]
        exact List.cons_ne_nil _ _
    · split <;> exact List.cons_ne_nil _ _

/-- A line is shown, unless the span is empty and starts a blank line. -/
theorem ofSpan?_cases (text : List Char) (span : Span) :
    (∃ snippet, ofSpan? text span = some snippet ∧
        snippet.number = (Landing.ofOffset text span.start).number) ∨
      ofSpan? text span = none ∧ (Landing.ofOffset text span.start).before = 0 ∧
        ∀ char ∈ (Landing.ofOffset text span.start).rest.head?, char = '\n' := by
  have place : (Landing.ofOffset text span.start).line.drop
      (Landing.ofOffset text span.start).before = (Landing.ofOffset text span.start).rest :=
    (Landing.drop_find span.start 1 List.drop_zero (Nat.zero_le _)).1
  have within : (Landing.ofOffset text span.start).before ≤
      (Landing.ofOffset text span.start).line.length :=
    (Landing.drop_find span.start 1 List.drop_zero (Nat.zero_le _)).2
  rw [ofSpan?]
  generalize Landing.ofOffset text span.start = landing at place within ⊢
  split
  · next none =>
      have reached := not_imp_comm.mp splitLines_ne_nil (not_not.mpr none)
      obtain ⟨passed, ahead⟩ := List.append_eq_nil_iff.mp reached
      refine .inr ⟨rfl, ?_⟩
      rcases List.take_eq_nil_iff.mp passed with count | empty
      · obtain ⟨start, marked⟩ := Nat.add_eq_zero_iff.mp count
        rw [marked, List.drop_zero] at ahead
        refine ⟨start, fun char first => ?_⟩
        obtain ⟨behind, rest⟩ := List.head?_eq_some_iff.mp first
        by_contra differs
        rw [rest, List.takeWhile_cons_of_pos (by simpa using differs)] at ahead
        cases ahead
      · rw [empty] at place within
        refine ⟨Nat.eq_zero_of_le_zero within, fun char first => ?_⟩
        rw [← place, List.drop_nil] at first
        cases first
  · exact .inl ⟨_, rfl, rfl⟩

end Snippet
/-- The line of a text on which a diagnostic is shown, from one: the newlines before its
start, brought to the start of a character. -/
def Diagnostic.shownLine (text : List Char) (diagnostic : Diagnostic) : Nat :=
  Utf8.newlinesBefore text (Utf8.snap text diagnostic.start) + 1

theorem Diagnostic.shownLine_eq (text : List Char) (diagnostic : Diagnostic) :
    diagnostic.shownLine text = Utf8.newlinesBefore text diagnostic.start + 1 := by
  rw [shownLine, Utf8.newlinesBefore, Utf8.charsBefore_snap, Utf8.newlinesBefore]

/-- The line of a diagnostic in the text for display does not lie behind the line of the
error, and it is the line of the error if what precedes the error is valid.  This is the
line with which the diagnostic is shown.  Without a line to show, which takes an empty span
at the start of a blank line, the origin is the first line. -/
theorem Diagnostic.render_line (file : SourceFile) (diagnostic : Diagnostic) :
    diagnostic.shownLine file.displayText.toList ≤
        (Point.ofOffset file.text diagnostic.start).row + 1 ∧
      (∀ before rest, file.text = before ++ rest → Utf8.isValid before = true →
        diagnostic.start ≤ before.length →
          diagnostic.shownLine file.displayText.toList =
            (Point.ofOffset file.text diagnostic.start).row + 1) ∧
      ((∃ snippet : Snippet,
          snippet.number = diagnostic.shownLine file.displayText.toList ∧
            diagnostic.render file.path file.displayText.toList =
              snippet.render file.path diagnostic.message) ∨
        diagnostic.render file.path file.displayText.toList =
            Snippet.renderBare file.path diagnostic.message ∧
          (Landing.ofOffset file.displayText.toList diagnostic.start).before = 0 ∧
          ∀ char ∈ (Landing.ofOffset file.displayText.toList diagnostic.start).rest.head?,
            char = '\n') := by
  rw [shownLine_eq]
  refine ⟨?_, ?_, ?_⟩
  · rw [SourceFile.displayText, Utf8.toList_decode]
    exact Nat.succ_le_succ (Utf8.newlinesBefore_le file.text diagnostic.start)
  · intro before rest split valid within
    rw [SourceFile.displayText, Utf8.toList_decode, split]
    exact congrArg Nat.succ (Utf8.newlinesBefore_eq valid within rest)
  · rw [render]
    rcases Snippet.ofSpan?_cases file.displayText.toList diagnostic.span with
      ⟨snippet, found, number⟩ | ⟨none, blank⟩
    · rw [found]
      exact .inl ⟨snippet, number.trans (Landing.number_ofOffset _ _), rfl⟩
    · rw [none]
      exact .inr ⟨rfl, blank⟩

/-- An undecodable byte in a comment displaces the error behind it: the query command
finds it on the second line, but its line in the text for display is the first, and there
it is shown. -/
theorem Diagnostic.render_line_displaced :
    (Parse.ofText .stock [0x3b, 0xff, 0x0a, 0x29]).diagnostics =
        [⟨"expected a statement", ⟨3, 4⟩⟩] ∧
      (Point.ofOffset [0x3b, 0xff, 0x0a, 0x29] 3).row + 1 = 2 ∧
      Diagnostic.shownLine (SourceFile.displayText ⟨"a.s", [0x3b, 0xff, 0x0a, 0x29]⟩).toList
        ⟨"expected a statement", ⟨3, 4⟩⟩ = 1 ∧
      (Diagnostic.render "a.s" (SourceFile.displayText ⟨"a.s", [0x3b, 0xff, 0x0a, 0x29]⟩).toList
          ⟨"expected a statement", ⟨3, 4⟩⟩)[1]? =
        some (Snippet.originRow 1 "a.s" 1 2) := by
  decide +kernel

end Asm6502
