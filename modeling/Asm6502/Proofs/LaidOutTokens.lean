import Asm6502.Proofs.ScanLocality
import Asm6502.Proofs.ScannedKinds
import Asm6502.Proofs.TokenLines
import Mathlib.Data.List.Forall2

/-!
# Tokens in another layout

A token sees little of what follows it: which byte comes next, and the byte behind that
one; of a blank it sees no more than that it is one.  So where the whitespace of a text
is replaced by other blanks, the tokens stay as they are.  Carriage returns are left out,
as they can be blanks and parts of line ends.
-/

namespace Asm6502

open List (Forall₂)

/-- Space, tab, vertical tab and form feed: the blanks that are part of no line end. -/
def Byte.gaps : List UInt8 :=
  [0x20, 0x09, 0x0b, 0x0c]

theorem Byte.eq_false_of_mem_gaps {holds : UInt8 → Bool} (noGap : gaps.any holds = false)
    {byte : UInt8} (isGap : byte ∈ gaps) : holds byte = false :=
  Bool.eq_false_iff.mpr (List.any_eq_false.mp noGap byte isGap)

namespace Bytes

/-- Both texts are empty, or begin with the same byte, or begin with blanks. -/
inductive BeginAlike : Bytes → Bytes → Prop
  | nil : BeginAlike [] []
  | same (byte : UInt8) (rest rest' : Bytes) : BeginAlike (byte :: rest) (byte :: rest')
  | gap {byte byte' : UInt8} (rest rest' : Bytes) :
      byte ∈ Byte.gaps → byte' ∈ Byte.gaps → BeginAlike (byte :: rest) (byte' :: rest')

/-- A token in front of either text cannot tell them apart. -/
inductive AheadAlike : Bytes → Bytes → Prop
  | nil : AheadAlike [] []
  | same (byte : UInt8) {rest rest' : Bytes} :
      BeginAlike rest rest' → AheadAlike (byte :: rest) (byte :: rest')
  | gap {byte byte' : UInt8} (rest rest' : Bytes) :
      byte ∈ Byte.gaps → byte' ∈ Byte.gaps → AheadAlike (byte :: rest) (byte' :: rest')

theorem AheadAlike.beginAlike {text other : Bytes} (ahead : AheadAlike text other) :
    BeginAlike text other := by
  cases ahead with
  | nil => exact .nil
  | same byte => exact .same byte _ _
  | gap rest rest' first second => exact .gap rest rest' first second

theorem BeginAlike.any_head? {text other : Bytes} (begins : BeginAlike text other)
    (holds : UInt8 → Bool) (noGap : Byte.gaps.any holds = false) :
    text.head?.any holds = other.head?.any holds := by
  cases begins with
  | nil => rfl
  | same => rfl
  | gap _ _ first second =>
      simp only [List.head?_cons, Option.any_some, Byte.eq_false_of_mem_gaps noGap first,
        Byte.eq_false_of_mem_gaps noGap second]

/-- A text begins like itself with the rest behind some byte replaced by what begins
like it. -/
theorem BeginAlike.take_append {rest more : Bytes} {count : Nat}
    (begins : BeginAlike (rest.drop count) more) : BeginAlike rest (rest.take count ++ more) := by
  cases count with
  | zero => exact begins
  | succ count =>
      cases rest with
      | nil => simpa using begins
      | cons byte rest => exact .same byte _ _

theorem atLineEnd_cons_of_ne {byte : UInt8} (notReturn : byte ≠ Byte.carriageReturn)
    (rest : Bytes) : atLineEnd (byte :: rest) = (byte == 0x0a) := by
  have differs : (byte == 0x0d) = false := beq_eq_false_iff_ne.mpr notReturn
  rw [atLineEnd_cons, differs, Bool.false_and, Bool.or_false]

theorem BeginAlike.newline {rest more : Bytes} (begins : BeginAlike (0x0a :: rest) more) :
    ∃ more', more = 0x0a :: more' := by
  cases begins with
  | same _ _ rest' => exact ⟨rest', rfl⟩
  | gap _ _ isGap => exact absurd isGap (by decide)

theorem BeginAlike.atLineEnd_eq {text other : Bytes} (begins : BeginAlike text other)
    (noReturns : Byte.carriageReturn ∉ text) : atLineEnd text = atLineEnd other := by
  have inside : ∀ byte ∈ Byte.gaps, ∀ rest, atLineEnd (byte :: rest) = false := by
    intro byte isGap rest
    rw [atLineEnd_cons_of_ne (by rintro rfl; exact absurd isGap (by decide))]
    exact beq_eq_false_iff_ne.mpr (by rintro rfl; exact absurd isGap (by decide))
  cases begins with
  | nil => rfl
  | same byte =>
      have notReturn := Ne.symm (List.ne_of_not_mem_cons noReturns)
      rw [atLineEnd_cons_of_ne notReturn, atLineEnd_cons_of_ne notReturn]
  | gap _ _ first second => rw [inside _ first, inside _ second]

theorem exists_newline_of_atLineEnd {text : Bytes} (ends : atLineEnd text = true)
    (noReturns : Byte.carriageReturn ∉ text) : ∃ rest, text = 0x0a :: rest := by
  cases text with
  | nil => contradiction
  | cons byte rest =>
      rw [atLineEnd_cons_of_ne (Ne.symm (List.ne_of_not_mem_cons noReturns)), beq_iff_eq] at ends
      exact ⟨rest, by rw [ends]⟩

theorem lineLength_take_append {rest more : Bytes}
    (noReturns : Byte.carriageReturn ∉ rest)
    (begins : BeginAlike (rest.drop (lineLength rest)) more) :
    lineLength (rest.take (lineLength rest) ++ more) = lineLength rest := by
  induction rest with
  | nil => cases begins; rfl
  | cons byte rest ih =>
      have notReturn := List.ne_of_not_mem_cons noReturns
      have noReturns := List.not_mem_of_not_mem_cons noReturns
      simp only [lineLength, atLineEnd_cons_of_ne (Ne.symm notReturn)] at begins ⊢
      by_cases ends : byte = 0x0a
      · subst ends
        obtain ⟨more', rfl⟩ := begins.newline
        rfl
      · have goesOn : (byte == 0x0a) = false := by simpa using ends
        simp only [goesOn, Bool.false_eq_true, if_false, List.drop_succ_cons] at begins ⊢
        rw [List.take_succ_cons, List.cons_append, lineLength,
          atLineEnd_cons_of_ne (Ne.symm notReturn), goesOn, if_neg Bool.false_ne_true,
          ih noReturns begins]

end Bytes

namespace Scan

open Bytes

section Runs

variable {rest more : Bytes}

theorem run_take_append {holds : UInt8 → Bool} (noGap : Byte.gaps.any holds = false)
    (begins : BeginAlike (rest.drop (run holds rest)) more) :
    run holds (rest.take (run holds rest) ++ more) = run holds rest := by
  induction rest with
  | nil => cases begins; rfl
  | cons byte rest ih =>
      simp only [run, List.takeWhile_cons] at ih begins ⊢
      cases held : holds byte with
      | true =>
          simp only [held, if_true, List.length_cons, List.drop_succ_cons] at begins ⊢
          rw [List.take_succ_cons, List.cons_append, List.takeWhile_cons, held, if_pos rfl,
            List.length_cons, ih begins]
      | false =>
          simp only [held, Bool.false_eq_true, if_false, List.length_nil, List.drop_zero,
            List.take_zero, List.nil_append] at begins ⊢
          have same := begins.any_head? holds noGap
          cases begins with
          | same => simp [held]
          | gap _ _ _ second => simp [Byte.eq_false_of_mem_gaps noGap second]

theorem startsToken_of_mem_gaps {byte : UInt8} (isGap : byte ∈ Byte.gaps) (rest : Bytes) :
    startsToken byte rest = true := by
  simp only [Byte.gaps, List.mem_cons, List.not_mem_nil, or_false] at isGap
  rcases isGap with rfl | rfl | rfl | rfl
  all_goals rfl

theorem startsToken_congr (byte : UInt8) {other : Bytes} (begins : BeginAlike rest other) :
    startsToken byte rest = startsToken byte other := by
  unfold startsToken nextIs
  rw [begins.any_head? Byte.isHexDigit rfl, begins.any_head? Byte.isBinaryDigit rfl,
    begins.any_head? Byte.startsWord rfl,
    begins.any_head? (fun next => next == Byte.newline || next == Byte.carriageReturn) rfl]

theorem strayRun_take_append (ahead : AheadAlike (rest.drop (strayRun rest)) more) :
    strayRun (rest.take (strayRun rest) ++ more) = strayRun rest := by
  induction rest with
  | nil => cases ahead; rfl
  | cons byte rest ih =>
      cases starts : startsToken byte rest with
      | true =>
          simp only [strayRun, starts, if_true, List.drop_zero, List.take_zero,
            List.nil_append] at ahead ⊢
          cases ahead with
          | same _ begins => rw [strayRun, ← startsToken_congr byte begins, starts, if_pos rfl]
          | gap _ _ _ second => rw [strayRun, startsToken_of_mem_gaps second, if_pos rfl]
      | false =>
          simp only [strayRun, starts, Bool.false_eq_true, if_false, List.drop_succ_cons]
            at ahead ⊢
          rw [List.take_succ_cons, List.cons_append, strayRun,
            ← startsToken_congr byte ahead.beginAlike.take_append, starts,
            if_neg Bool.false_ne_true, ih ahead]

theorem closing?_take_append {quote : UInt8} {count : Nat} (noReturns : Byte.carriageReturn ∉ rest)
    (found : closing? quote rest = some count) (more : Bytes) :
    closing? quote (rest.take count ++ more) = some count := by
  induction rest generalizing count with
  | nil => contradiction
  | cons byte rest ih =>
      have notReturn := List.ne_of_not_mem_cons noReturns
      have noReturns := List.not_mem_of_not_mem_cons noReturns
      rw [closing?, atLineEnd_cons_of_ne (Ne.symm notReturn)] at found
      split at found
      · contradiction
      · next goesOn =>
          split at found
          · next closes =>
              obtain rfl : count = 1 := (Option.some.inj found).symm
              rw [List.take_succ_cons, List.cons_append, closing?,
                atLineEnd_cons_of_ne (Ne.symm notReturn), if_neg goesOn, if_pos closes]
          · next inside =>
              obtain ⟨inner, innerFound, rfl⟩ := Option.map_eq_some_iff.mp found
              rw [List.take_succ_cons, List.cons_append, closing?,
                atLineEnd_cons_of_ne (Ne.symm notReturn), if_neg goesOn, if_neg inside,
                ih noReturns innerFound]
              rfl

theorem closing?_take_append_none {quote : UInt8} (noReturns : Byte.carriageReturn ∉ rest)
    (none : closing? quote rest = none)
    (begins : BeginAlike (rest.drop (lineLength rest)) more) :
    closing? quote (rest.take (lineLength rest) ++ more) = Option.none := by
  induction rest with
  | nil => cases begins; rfl
  | cons byte rest ih =>
      have notReturn := List.ne_of_not_mem_cons noReturns
      have noReturns := List.not_mem_of_not_mem_cons noReturns
      simp only [lineLength, closing?, atLineEnd_cons_of_ne (Ne.symm notReturn)] at begins none ⊢
      by_cases ends : byte = 0x0a
      · subst ends
        obtain ⟨more', rfl⟩ := begins.newline
        rfl
      · have goesOn : (byte == 0x0a) = false := by simpa using ends
        simp only [goesOn, Bool.false_eq_true, if_false, List.drop_succ_cons] at begins none ⊢
        split at none
        · contradiction
        · next inside =>
            rw [Option.map_eq_none_iff] at none
            rw [List.take_succ_cons, List.cons_append, closing?,
              atLineEnd_cons_of_ne (Ne.symm notReturn), goesOn, if_neg Bool.false_ne_true,
              if_neg inside, ih noReturns none begins]
            rfl

end Runs

/-- The scanner of one token gives the same with other text behind the token that begins
alike. -/
def SeesAhead (rest : Bytes) (scanner : Bytes → Kind × Nat) : Prop :=
  ∀ ⦃more : Bytes⦄, AheadAlike (rest.drop (scanner rest).2) more →
    scanner (rest.take (scanner rest).2 ++ more) = scanner rest

section Tokens

variable {rest : Bytes}

theorem run_seesAhead {holds : UInt8 → Bool} (noGap : Byte.gaps.any holds = false)
    (kind : Bytes → Kind) :
    SeesAhead rest fun rest => (kind (rest.take (run holds rest)), run holds rest) := by
  intro more ahead
  have inside : run holds rest ≤ rest.length := (List.takeWhile_prefix _).length_le
  have same := run_take_append noGap ahead.beginAlike
  have taken : (rest.take (run holds rest) ++ more).take (run holds rest) =
      rest.take (run holds rest) :=
    List.take_left' (List.length_take_of_le inside)
  simp only [same, taken]

theorem stray_seesAhead : SeesAhead rest stray := fun _ ahead =>
  congrArg (Prod.mk Kind.errorToken) (strayRun_take_append ahead)

theorem guarded_seesAhead {holds : UInt8 → Bool} {scanner : Bytes → Kind × Nat}
    (noGap : Byte.gaps.any holds = false) (inside : SeesAhead rest scanner) :
    SeesAhead rest fun rest => if nextIs holds rest then scanner rest else stray rest := by
  intro more ahead
  have same := (ahead.beginAlike.take_append.any_head? holds noGap).symm
  change nextIs holds _ = nextIs holds rest at same
  dsimp only at ahead same ⊢
  cases guard : nextIs holds rest with
  | true =>
      simp only [guard, if_true] at ahead same ⊢
      rw [same, if_pos rfl, inside ahead]
  | false =>
      simp only [guard, Bool.false_eq_true, if_false] at ahead same ⊢
      rw [same, if_neg Bool.false_ne_true, stray_seesAhead ahead]

theorem double?_of_mem_gaps {byte : UInt8} (isGap : byte ∈ Byte.gaps) (first : Char) :
    double? first (Byte.char byte) = none := by
  simp only [Byte.gaps, List.mem_cons, List.not_mem_nil, or_false] at isGap
  unfold double?
  split <;> first
    | rfl
    | (rename_i same
       rcases isGap with rfl | rfl | rfl | rfl <;> exact absurd same (by decide))

theorem operator_seesAhead (first : Char) (alone : Kind) :
    SeesAhead rest (operator first alone) := by
  intro more ahead
  cases rest with
  | nil => cases ahead; rfl
  | cons next rest =>
      simp only [operator, List.head?_cons, Option.bind_some] at ahead ⊢
      cases found : double? first (Byte.char next) with
      | some kind => simp [found]
      | none =>
          simp only [found, List.drop_zero, List.take_zero, List.nil_append] at ahead ⊢
          cases ahead with
          | same => simp [found]
          | gap _ _ _ second => simp [double?_of_mem_gaps second]

theorem colon_of_mem_gaps {byte : UInt8} (isGap : byte ∈ Byte.gaps) (rest : Bytes) :
    colon false (byte :: rest) = (.colon, 0) := by
  simp only [Byte.gaps, List.mem_cons, List.not_mem_nil, or_false] at isGap
  rcases isGap with rfl | rfl | rfl | rfl
  all_goals rfl

theorem colon_of_ne {byte : UInt8}
    (others : byte ≠ 0x3a ∧ byte ≠ 0x3d ∧ byte ≠ 0x2b ∧ byte ≠ 0x2d) (rest : Bytes) :
    colon false (byte :: rest) = (.colon, 0) := by
  obtain ⟨notColon, notEqual, notPlus, notMinus⟩ := others
  rw [colon, if_neg Bool.false_ne_true]
  split
  · next same => exact absurd (show byte = 0x3a from Byte.char_injective same) notColon
  · next same => exact absurd (show byte = 0x3d from Byte.char_injective same) notEqual
  · next same => exact absurd (show byte = 0x2b from Byte.char_injective same) notPlus
  · next same => exact absurd (show byte = 0x2d from Byte.char_injective same) notMinus
  · rfl

theorem unnamedRef_seesAhead {sign : UInt8} (noGap : sign ∉ Byte.gaps)
    (distance : ∀ rest, colon false (sign :: rest) =
      (.unnamedRef, run (· == sign) (sign :: rest))) :
    SeesAhead (sign :: rest) (colon false) := by
  intro more ahead
  have none : Byte.gaps.any (· == sign) = false := by
    rw [List.any_eq_false]
    intro byte isGap same
    exact noGap (beq_iff_eq.mp same ▸ isGap)
  have count : run (· == sign) (sign :: rest) = run (· == sign) rest + 1 := by simp [run]
  rw [distance] at ahead ⊢
  have same := run_take_append none ahead.beginAlike
  dsimp only at same ⊢
  rw [count, List.take_succ_cons, List.cons_append] at same ⊢
  rw [distance, same]

theorem colon_seesAhead (atLineStart : Bool) : SeesAhead rest (colon atLineStart) := by
  cases atLineStart with
  | true => exact fun _ _ => rfl
  | false =>
      cases rest with
      | nil =>
          intro more ahead
          cases ahead
          rfl
      | cons next rest =>
          by_cases isPlus : next = 0x2b
          · subst isPlus
            exact unnamedRef_seesAhead (by decide) fun _ => rfl
          by_cases isMinus : next = 0x2d
          · subst isMinus
            exact unnamedRef_seesAhead (by decide) fun _ => rfl
          intro more ahead
          by_cases isColon : next = 0x3a
          · subst isColon
            rfl
          by_cases isEqual : next = 0x3d
          · subst isEqual
            rfl
          have alone := colon_of_ne ⟨isColon, isEqual, isPlus, isMinus⟩
          rw [alone] at ahead ⊢
          cases ahead with
          | same => exact alone _
          | gap _ _ _ second => exact colon_of_mem_gaps second _

theorem exists_count_of_not_newline (quote : UInt8) {byte : UInt8} (notNewline : byte ≠ 0x0a)
    (notReturn : byte ≠ Byte.carriageReturn) (rest : Bytes) :
    ∃ count, (closing? quote (byte :: rest)).getD (lineLength (byte :: rest)) = count + 1 := by
  have goesOn : (byte == 0x0a) = false := by simpa using notNewline
  rw [closing?, lineLength, atLineEnd_cons_of_ne notReturn, goesOn, if_neg Bool.false_ne_true,
    if_neg Bool.false_ne_true]
  split
  · exact ⟨0, rfl⟩
  · cases closing? quote rest with
    | none => exact ⟨_, rfl⟩
    | some count => exact ⟨count, rfl⟩

theorem closing_seesAhead {quote : UInt8} {more : Bytes}
    (noReturns : Byte.carriageReturn ∉ rest)
    (ahead : AheadAlike (rest.drop ((closing? quote rest).getD (lineLength rest))) more) :
    closing? quote (rest.take ((closing? quote rest).getD (lineLength rest)) ++ more) =
        closing? quote rest ∧
      (closing? quote rest = none →
        lineLength (rest.take ((closing? quote rest).getD (lineLength rest)) ++ more) =
          lineLength rest) := by
  cases found : closing? quote rest with
  | some count => exact ⟨closing?_take_append noReturns found more, by simp⟩
  | none =>
      rw [found] at ahead
      exact ⟨closing?_take_append_none noReturns found ahead.beginAlike,
        fun _ => lineLength_take_append noReturns ahead.beginAlike⟩

theorem character_seesAhead (noReturns : Byte.carriageReturn ∉ rest) :
    SeesAhead rest character := by
  intro more ahead
  cases rest with
  | nil => cases ahead; rfl
  | cons byte rest =>
      have notReturn := Ne.symm (List.ne_of_not_mem_cons noReturns)
      by_cases ends : byte = 0x0a
      · subst ends
        rw [character_of_newline] at ahead ⊢
        obtain ⟨more', rfl⟩ := ahead.beginAlike.newline
        exact character_of_newline more'
      · have goesOn (rest : Bytes) : atLineEnd (byte :: rest) = false := by
          rw [atLineEnd_cons_of_ne notReturn]
          simpa using ends
        have whole := character_eq (byte :: rest)
        rw [goesOn, if_neg Bool.false_ne_true, List.drop_one, List.tail_cons] at whole
        split at whole
        · next quoted =>
            rw [whole] at ahead ⊢
            cases rest with
            | nil => contradiction
            | cons second rest =>
                obtain rfl : second = 0x27 := by simpa using quoted
                change character (byte :: 0x27 :: more) = _
                rw [character_eq, goesOn]
                rfl
        · next unquoted =>
            obtain ⟨count, positive⟩ :=
              exists_count_of_not_newline 0x27 ends notReturn rest
            rw [whole] at ahead ⊢
            obtain ⟨closes, line⟩ := closing_seesAhead noReturns ahead
            rw [positive] at ahead closes line ⊢
            rw [List.take_succ_cons, List.cons_append] at closes line ⊢
            have behind : AheadAlike (rest.drop count) more := ahead
            have sameHead := behind.beginAlike.take_append.any_head? (· == 0x27) rfl
            rw [character_eq, goesOn, List.drop_one, List.tail_cons, ← sameHead, if_neg unquoted,
              closes]
            cases found : closing? 0x27 (byte :: rest) with
            | some inner => rw [← positive, found, Option.getD_some, Option.getD_some]
            | none => rw [line found, ← positive, found, Option.getD_none]

theorem stringLiteral_seesAhead (noReturns : Byte.carriageReturn ∉ rest) :
    SeesAhead rest stringLiteral := by
  intro more ahead
  unfold stringLiteral at ahead ⊢
  cases found : closing? 0x22 rest with
  | some count =>
      simp only [found] at ahead ⊢
      rw [closing?_take_append noReturns found]
  | none =>
      simp only [found] at ahead ⊢
      rw [closing?_take_append_none noReturns found ahead.beginAlike,
        lineLength_take_append noReturns ahead.beginAlike]

theorem comment_seesAhead (noReturns : Byte.carriageReturn ∉ rest) :
    SeesAhead rest fun rest => (.comment, lineLength rest) := fun _ ahead =>
  congrArg (Prod.mk Kind.comment) (lineLength_take_append noReturns ahead.beginAlike)

theorem continuation_seesAhead (noReturns : Byte.carriageReturn ∉ rest) :
    SeesAhead rest fun rest =>
      if atLineEnd rest then (.lineContinuation, lineEndLength rest) else stray rest := by
  intro more ahead
  have sameEnd := ahead.beginAlike.take_append.atLineEnd_eq noReturns
  dsimp only at sameEnd ahead ⊢
  cases ended : atLineEnd rest with
  | true =>
      obtain ⟨rest, rfl⟩ := exists_newline_of_atLineEnd ended noReturns
      rfl
  | false =>
      simp only [ended, Bool.false_eq_true, if_false] at sameEnd ahead ⊢
      rw [← sameEnd, if_neg Bool.false_ne_true, stray_seesAhead ahead]

theorem mem_gaps_of_char {first : UInt8} (isBlank : Byte.char first ∈ [' ', '\t', '\x0b', '\x0c']) :
    first ∈ Byte.gaps := by
  simp only [List.mem_cons, List.not_mem_nil, or_false] at isBlank
  rcases isBlank with isChar | isChar | isChar | isChar
  all_goals
    rw [Byte.eq_of_char isChar]
    decide

/-- A token other than whitespace stays as it is in front of a text that begins like the
one behind it. -/
theorem Chooses.seesAhead {dialect : Dialect} {atLineStart : Bool} {first : UInt8}
    {scanner : Bytes → Kind × Nat} (chosen : Chooses dialect atLineStart first scanner)
    (noReturns : Byte.carriageReturn ∉ first :: rest) (noGap : first ∉ Byte.gaps) :
    SeesAhead rest scanner := by
  have notReturn := Ne.symm (List.ne_of_not_mem_cons noReturns)
  have noReturns := List.not_mem_of_not_mem_cons noReturns
  have word (kind : Bytes → Kind) : SeesAhead rest fun rest =>
      (kind (rest.take (run Byte.continuesWord rest)), run Byte.continuesWord rest) :=
    run_seesAhead rfl kind
  cases chosen with
  | single | newline => exact fun _ _ => rfl
  | carriageReturn begins => exact absurd (Byte.eq_of_char begins) notReturn
  | blank begins => exact absurd (mem_gaps_of_char begins) noGap
  | comment => exact comment_seesAhead noReturns
  | backslash => exact continuation_seesAhead noReturns
  | colon => exact colon_seesAhead atLineStart
  | operator => exact operator_seesAhead _ _
  | hexNumber | binaryNumber =>
      exact guarded_seesAhead rfl (run_seesAhead rfl fun _ => .number)
  | character => exact character_seesAhead noReturns
  | stringLiteral => exact stringLiteral_seesAhead noReturns
  | localIdent => exact guarded_seesAhead rfl (word fun _ => .localIdent)
  | dottedWord =>
      exact guarded_seesAhead rfl (word fun behind => Scan.dottedWord dialect (first :: behind))
  | number => exact word fun _ => .number
  | plainWord => exact word fun behind => Scan.plainWord dialect (first :: behind)
  | stray => exact fun _ ahead => stray_seesAhead ahead

theorem classify_seesAhead (dialect : Dialect) (atLineStart : Bool) {first : UInt8}
    (noReturns : Byte.carriageReturn ∉ first :: rest) (noGap : first ∉ Byte.gaps) :
    SeesAhead rest (classify dialect atLineStart first) :=
  (chooses_classify dialect atLineStart first).seesAhead noReturns noGap

end Tokens

section Whitespace

variable {first : UInt8} {rest : Bytes}

theorem classify_of_mem_gaps (dialect : Dialect) (atLineStart : Bool) (isGap : first ∈ Byte.gaps)
    (rest : Bytes) : classify dialect atLineStart first rest = (.whitespace, blankRun rest) := by
  simp only [Byte.gaps, List.mem_cons, List.not_mem_nil, or_false] at isGap
  rcases isGap with rfl | rfl | rfl | rfl
  all_goals rfl

theorem mem_gaps_of_whitespace {dialect : Dialect} {atLineStart : Bool}
    (isWhitespace : (classify dialect atLineStart first rest).1 = .whitespace)
    (notReturn : first ≠ Byte.carriageReturn) : first ∈ Byte.gaps := by
  have listed := classify_mem dialect atLineStart first rest
  rw [isWhitespace] at listed
  rcases eq_blank_of_mem listed with isReturn | isBlank
  · exact absurd (Byte.eq_of_char isReturn) notReturn
  · exact mem_gaps_of_char (by simpa using isBlank)

theorem isBlank_of_mem_gaps {byte : UInt8} (isGap : byte ∈ Byte.gaps) :
    Byte.isBlank byte = true :=
  List.all_eq_true.mp (rfl : Byte.gaps.all Byte.isBlank = true) byte isGap

theorem blankRun_cons {byte : UInt8} (notReturn : byte ≠ Byte.carriageReturn) (rest : Bytes) :
    blankRun (byte :: rest) = if byte ∈ Byte.gaps then blankRun rest + 1 else 0 := by
  rw [blankRun, Bytes.atLineEnd_cons_of_ne notReturn]
  by_cases isGap : byte ∈ Byte.gaps
  · have notNewline : (byte == 0x0a) = false := by
      rw [beq_eq_false_iff_ne]
      rintro rfl
      exact absurd isGap (by decide)
    rw [isBlank_of_mem_gaps isGap, notNewline, if_pos isGap]
    rfl
  · have notBlank : Byte.isBlank byte = false := by
      simp only [Byte.gaps, List.mem_cons, List.not_mem_nil, or_false, not_or] at isGap
      simpa [Byte.isBlank, isGap, Byte.carriageReturn] using notReturn
    rw [notBlank, if_neg isGap]
    rfl

theorem blankRun_gaps {blanks more : Bytes} (gaps : ∀ byte ∈ blanks, byte ∈ Byte.gaps)
    (stops : blankRun more = 0) : blankRun (blanks ++ more) = blanks.length := by
  induction blanks with
  | nil => exact stops
  | cons byte blanks ih =>
      obtain ⟨isGap, gaps⟩ := List.forall_mem_cons.mp gaps
      have notReturn : byte ≠ Byte.carriageReturn := by
        rintro rfl
        exact absurd isGap (by decide)
      rw [List.cons_append, blankRun_cons notReturn, if_pos isGap, ih gaps,
        List.length_cons]

theorem blankRun_of_beginAlike {more : Bytes} (noReturns : Byte.carriageReturn ∉ rest)
    (begins : BeginAlike (rest.drop (blankRun rest)) more) : blankRun more = 0 := by
  induction rest with
  | nil => cases begins; rfl
  | cons byte rest ih =>
      have notReturn := Ne.symm (List.ne_of_not_mem_cons noReturns)
      have noReturns := List.not_mem_of_not_mem_cons noReturns
      rw [blankRun_cons notReturn] at begins
      split at begins
      · exact ih noReturns begins
      · next noGap =>
          cases begins with
          | same => rw [blankRun_cons notReturn, if_neg noGap]
          | gap _ _ isGap => exact absurd isGap noGap

end Whitespace

end Scan

/-- The same token, but for other spaces and tabs where it is whitespace. -/
structure Token.Relaid (token other : Token) : Prop where
  kind : token.kind = other.kind
  text_of_ne : token.kind ≠ .whitespace → token.text = other.text
  blank : token.kind = .whitespace →
    other.text ≠ [] ∧ ∀ byte ∈ other.text, byte = 0x20 ∨ byte = 0x09

instance (token other : Token) : Decidable (token.Relaid other) :=
  decidable_of_iff
    (token.kind = other.kind ∧ (token.kind ≠ .whitespace → token.text = other.text) ∧
      (token.kind = .whitespace →
        other.text ≠ [] ∧ other.text.all fun byte => byte == 0x20 || byte == 0x09))
    ⟨fun ⟨kind, text, blank⟩ => ⟨kind, text, by simpa using blank⟩,
      fun ⟨kind, text, blank⟩ => ⟨kind, text, by simpa using blank⟩⟩

namespace Scan

open Bytes

theorem take_take_append {rest more : Bytes} {count : Nat}
    (begins : BeginAlike (rest.drop count) more) :
    (rest.take count ++ more).take count = rest.take count ∧
      (rest.take count ++ more).drop count = more := by
  rcases Nat.le_total count rest.length with inside | outside
  · have length : (rest.take count).length = count := List.length_take_of_le inside
    exact ⟨List.take_left' length, List.drop_left' length⟩
  · rw [List.drop_of_length_le outside] at begins
    cases begins
    rw [List.append_nil, List.take_take, Nat.min_self]
    exact ⟨rfl, List.drop_of_length_le (List.length_take_le count rest)⟩

variable {dialect : Dialect} {atLineStart : Bool} {first : UInt8} {rest more : Bytes}

/-- A token other than whitespace is the first one also in front of a text that begins
alike. -/
theorem scanFrom_of_not_gap (noReturns : Byte.carriageReturn ∉ first :: rest)
    (noGap : first ∉ Byte.gaps)
    (ahead : AheadAlike (rest.drop (classify dialect atLineStart first rest).2) more) :
    scanFrom dialect atLineStart 0 ((firstToken dialect atLineStart first rest).text ++ more) =
      firstToken dialect atLineStart first rest ::
        scanFrom dialect (lineStartAfter atLineStart
          (firstToken dialect atLineStart first rest).kind) 0 more := by
  have same := classify_seesAhead dialect atLineStart noReturns noGap ahead
  obtain ⟨taken, left⟩ := take_take_append ahead.beginAlike
  have token : firstToken dialect atLineStart first
      (rest.take (classify dialect atLineStart first rest).2 ++ more) =
        firstToken dialect atLineStart first rest := by
    rw [firstToken, same, taken, firstToken]
  change scanFrom dialect atLineStart 0 (first :: (rest.take _ ++ more)) = _
  rw [scanFrom_cons, token, same, left]

/-- Blanks are one token, whatever was in their place. -/
theorem scanFrom_gaps {blanks : Bytes} (nonempty : blanks ≠ [])
    (gaps : ∀ byte ∈ blanks, byte ∈ Byte.gaps) (stops : blankRun more = 0) :
    scanFrom dialect atLineStart 0 (blanks ++ more) =
      ⟨.whitespace, blanks⟩ :: scanFrom dialect atLineStart 0 more := by
  obtain ⟨byte, blanks, rfl⟩ := List.exists_cons_of_ne_nil nonempty
  obtain ⟨isGap, gaps⟩ := List.forall_mem_cons.mp gaps
  have count := blankRun_gaps gaps stops
  have classified := classify_of_mem_gaps dialect atLineStart isGap (blanks ++ more)
  rw [List.cons_append, scanFrom_cons, firstToken, classified, count, List.take_left,
    List.drop_left]
  rfl

/-- Relaid tokens are the tokens of their own text. -/
theorem scanFrom_relaid {text : Bytes} (noReturns : Byte.carriageReturn ∉ text)
    {others : List Token}
    (relaid : Forall₂ Token.Relaid (scanFrom dialect atLineStart 0 text) others) :
    scanFrom dialect atLineStart 0 (others.flatMap Token.text) = others ∧
      AheadAlike text (others.flatMap Token.text) := by
  -- That both rests begin alike is what lets the token in front of them be scanned as before.
  induction atLineStart, text using scanInduct dialect generalizing others with
  | nil =>
      cases relaid
      exact ⟨rfl, .nil⟩
  | cons atLineStart first rest ih =>
      have notReturn := Ne.symm (List.ne_of_not_mem_cons noReturns)
      have noneBehind := List.not_mem_of_not_mem_cons noReturns
      rw [scanFrom_cons] at relaid
      rcases relaid with _ | ⟨here, relaid⟩
      next other others =>
      obtain ⟨scanned, ahead⟩ :=
        ih (fun isReturn => noneBehind (List.mem_of_mem_drop isReturn)) relaid
      rw [List.flatMap_cons]
      by_cases isWhitespace : (firstToken dialect atLineStart first rest).kind = .whitespace
      · have isGap := mem_gaps_of_whitespace isWhitespace notReturn
        obtain ⟨nonempty, blanks⟩ := here.blank isWhitespace
        have gaps : ∀ byte ∈ other.text, byte ∈ Byte.gaps := by
          intro byte member
          rcases blanks byte member with rfl | rfl
          all_goals decide
        rw [classify_of_mem_gaps dialect atLineStart isGap] at ahead
        have stops := blankRun_of_beginAlike noneBehind ahead.beginAlike
        have token : (⟨.whitespace, other.text⟩ : Token) = other := by
          rw [← isWhitespace, here.kind]
        have sameState : lineStartAfter atLineStart Kind.whitespace = atLineStart := rfl
        rw [isWhitespace, sameState] at scanned
        constructor
        · rw [scanFrom_gaps nonempty gaps stops, scanned, token]
        · obtain ⟨byte, blanks, text⟩ := List.exists_cons_of_ne_nil nonempty
          rw [text] at gaps ⊢
          exact .gap _ _ isGap (gaps byte List.mem_cons_self)
      · have noGap : first ∉ Byte.gaps := by
          intro isGap
          exact isWhitespace (congrArg Prod.fst
            (classify_of_mem_gaps dialect atLineStart isGap rest))
        have same : other = firstToken dialect atLineStart first rest :=
          congrArg₂ Token.mk here.kind.symm (here.text_of_ne isWhitespace).symm
        rw [same]
        constructor
        · rw [scanFrom_of_not_gap noReturns noGap ahead, scanned]
        · exact .same first ahead.beginAlike.take_append

end Scan
end Asm6502
