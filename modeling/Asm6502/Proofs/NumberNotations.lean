import Asm6502.Proofs.CaseBlindness
import Asm6502.Proofs.Numerals
import Mathlib.Algebra.Group.Nat.Defs
import Mathlib.Data.List.Induction

/-!
# Notations of numbers

A number has four notations, and no text is one in two of them.  A text is read as a
number exactly if it denotes one that is below two to the power of 63, whether or not it
would be scanned as a single token.
-/

namespace Asm6502
namespace Number

/-- A text denotes a number: one or more digits stand behind a dollar sign or a percent
sign, in front of a single letter H, or alone. -/
inductive Denotes : (text : Bytes) → (value : Nat) → Prop
  | dollar {digits : Bytes} {value : Nat} :
      Spell 16 digits value → Denotes (0x24 :: digits) value
  | percent {digits : Bytes} {value : Nat} :
      Spell 2 digits value → Denotes (0x25 :: digits) value
  | suffixed {digits : Bytes} {mark : UInt8} {value : Nat} :
      Spell 16 digits value → mark = 0x68 ∨ mark = 0x48 → Denotes (digits ++ [mark]) value
  | decimal {digits : Bytes} {value : Nat} : Spell 10 digits value → Denotes digits value

variable {radix value digit : Nat} {byte mark : UInt8} {digits text : Bytes}

theorem spelled_of_digit? (byte : UInt8) : ∀ digit : Fin 16,
    digit? byte = some digit.val → alphabet[digit]? = some (Byte.lower byte) :=
  Byte.of_table (by decide +kernel) byte

theorem append?_eq_some_iff (small : radix ≤ 16) {number : Nat} :
    append? radix number byte = some value ↔
      ∃ digit, IsDigit radix byte digit ∧ value = number * radix + digit := by
  constructor
  · intro appended
    rw [append?] at appended
    split at appended
    · next digit valued =>
        split at appended
        · next below =>
            have spelled := spelled_of_digit? byte ⟨digit, by omega⟩ valued
            exact ⟨digit, ⟨spelled, below⟩, (Option.some.inj appended).symm⟩
        · contradiction
    · contradiction
  · rintro ⟨digit, isDigit, rfl⟩
    exact isDigit.append? number

/-- What a number is read from spells it. -/
theorem spell_of_foldlM (small : radix ≤ 16) (nonempty : digits ≠ [])
    (folded : digits.foldlM (append? radix) 0 = some value) : Spell radix digits value := by
  induction digits using List.reverseRecOn generalizing value with
  | nil => contradiction
  | append_singleton early byte ih =>
      rw [List.foldlM_append] at folded
      obtain ⟨number, before, last⟩ := Option.bind_eq_some_iff.mp folded
      have appended : append? radix number byte = some value := by simpa using last
      obtain ⟨digit, isDigit, rfl⟩ := (append?_eq_some_iff small).mp appended
      cases early with
      | nil =>
          obtain rfl := Option.some.inj before
          rw [Nat.zero_mul, Nat.zero_add]
          exact .single isDigit
      | cons first rest => exact .more (ih (List.cons_ne_nil _ _) before) isDigit

theorem digits?_eq_some_iff (small : radix ≤ 16) :
    digits? radix digits = some value ↔ Spell radix digits value := by
  constructor
  · intro valued
    rw [digits?] at valued
    split at valued
    · contradiction
    · next nonempty => exact spell_of_foldlM small (by simpa using nonempty) valued
  · exact Spell.digits?

theorem isMark_iff : Byte.lower mark = 0x68 ↔ mark = 0x68 ∨ mark = 0x48 :=
  Byte.of_table (by decide +kernel) mark

theorem notationOf_of_hexDigit (isDigit : Byte.isHexDigit byte = true) (rest : Bytes) :
    notationOf (byte :: rest) =
      if (byte :: rest).getLast?.any fun mark => Byte.lower mark == 0x68 then
        (16, (byte :: rest).dropLast)
      else (10, byte :: rest) := by
  unfold notationOf
  split
  · next same =>
      obtain ⟨rfl, -⟩ := List.cons.inj same
      contradiction
  · next same =>
      obtain ⟨rfl, -⟩ := List.cons.inj same
      contradiction
  · rfl

theorem notationOf_marked (spell : Spell 16 digits value) (isMark : mark = 0x68 ∨ mark = 0x48) :
    notationOf (digits ++ [mark]) = (16, digits) := by
  obtain ⟨first, rest, rfl⟩ := List.exists_cons_of_ne_nil spell.ne_nil
  have last : (first :: (rest ++ [mark])).getLast? = some mark := by
    rw [← List.cons_append, List.getLast?_concat]
  have isDigit := spell.isHexDigit List.mem_cons_self
  rw [List.cons_append, notationOf_of_hexDigit isDigit, last, Option.any_some,
    if_pos (beq_iff_eq.mpr (isMark_iff.mpr isMark)), ← List.cons_append, List.dropLast_concat]

/-- A text has one radix and one list of digits, whatever it denotes. -/
theorem denotes_iff :
    Denotes text value ↔ Spell (notationOf text).1 (notationOf text).2 value := by
  constructor
  · intro denotes
    cases denotes with
    | dollar spell => exact spell
    | percent spell => exact spell
    | suffixed spell isMark => rwa [notationOf_marked spell isMark]
    | decimal spell =>
        rw [notationOf_digits spell.ne_nil fun byte member => ?_]
        · exact spell
        · obtain ⟨digit, isDigit⟩ := spell.exists_digit byte member
          exact isDigit.classes.2.2.2.1 isDigit.below
  · intro spell
    unfold notationOf at spell
    split at spell
    · exact .dollar spell
    · exact .percent spell
    · split at spell
      · next marked =>
          obtain ⟨mark, last, isMark⟩ := (Option.any_eq_true _ _).mp marked
          rw [← List.dropLast_append_getLast? mark last]
          exact .suffixed spell (isMark_iff.mp (beq_iff_eq.mp isMark))
      · exact .decimal spell

theorem notationOf_le (text : Bytes) : (notationOf text).1 ≤ 16 := by
  unfold notationOf
  split
  · exact Nat.le_refl 16
  · exact Nat.le_of_ble_eq_true rfl
  · split
    · exact Nat.le_refl 16
    · exact Nat.le_of_ble_eq_true rfl

theorem digits?_notationOf :
    digits? (notationOf text).1 (notationOf text).2 = some value ↔ Denotes text value := by
  rw [digits?_eq_some_iff (notationOf_le text), denotes_iff]

theorem Denotes.unique {other : Nat} (denotes : Denotes text value)
    (also : Denotes text other) : value = other := by
  rw [← digits?_notationOf] at denotes also
  exact Option.some.inj (denotes.symm.trans also)

theorem Spell.exists_isHexDigit (spell : Spell radix digits value) :
    ∃ byte ∈ digits, Byte.isHexDigit byte = true := by
  obtain ⟨byte, member⟩ := List.exists_mem_of_ne_nil _ spell.ne_nil
  exact ⟨byte, member, spell.isHexDigit member⟩

/-- A text that denotes a number has a digit in it, and else only marks of notations. -/
theorem Denotes.bytes (denotes : Denotes text value) :
    (∃ byte ∈ text, Byte.isHexDigit byte = true) ∧
      ∀ byte ∈ text, Byte.isHexDigit byte = true ∨
        byte ∈ ([0x24, 0x25, 0x68, 0x48] : Bytes) := by
  have marked {radix value : Nat} {digits text : Bytes} (mark : UInt8)
      (spell : Spell radix digits value) (isMark : mark ∈ ([0x24, 0x25, 0x68, 0x48] : Bytes))
      (mem_iff : ∀ byte, byte ∈ text ↔ byte = mark ∨ byte ∈ digits) :
      (∃ byte ∈ text, Byte.isHexDigit byte = true) ∧
        ∀ byte ∈ text, Byte.isHexDigit byte = true ∨
          byte ∈ ([0x24, 0x25, 0x68, 0x48] : Bytes) := by
    obtain ⟨digit, digitIn, isDigit⟩ := spell.exists_isHexDigit
    refine ⟨⟨digit, (mem_iff digit).mpr (.inr digitIn), isDigit⟩, fun byte member => ?_⟩
    rcases (mem_iff byte).mp member with rfl | member
    · exact .inr isMark
    · exact .inl (spell.isHexDigit member)
  cases denotes with
  | dollar spell => exact marked 0x24 spell (by decide) (by simp)
  | percent spell => exact marked 0x25 spell (by decide) (by simp)
  | @suffixed _ mark _ spell isMark =>
      refine marked mark spell ?_ (by simp [or_comm])
      rcases isMark with rfl | rfl <;> decide
  | decimal spell =>
      exact ⟨spell.exists_isHexDigit, fun byte member => .inl (spell.isHexDigit member)⟩

theorem ascii_of_mark : Byte.isHexDigit byte = true ∨
      byte ∈ ([0x24, 0x25, 0x68, 0x48] : Bytes) →
    byte.toNat < 0x80 ∧ byte ≠ 0x2b ∧ byte ≠ 0x2d :=
  Byte.of_table (by decide +kernel) byte

theorem Denotes.ascii (denotes : Denotes text value) :
    ∀ byte ∈ text, byte.toNat < 0x80 ∧ byte ≠ 0x2b ∧ byte ≠ 0x2d := fun byte member =>
  ascii_of_mark (denotes.bytes.2 byte member)

theorem isValid_of_ascii (ascii : ∀ byte ∈ text, byte.toNat < 0x80) :
    Utf8.isValid text = true := by
  rw [Utf8.isValid, Utf8.chars]
  induction text with
  | nil => rfl
  | cons first rest ih =>
      rw [Utf8.charsFrom, Utf8.next_of_ascii (ascii first List.mem_cons_self)]
      exact ih fun byte member => ascii byte (List.mem_cons_of_mem _ member)

theorem parse?_eq_some_iff {number : Int64} :
    parse? text = some number ↔
      ∃ value : Nat, Denotes text value ∧ value ≤ 2 ^ 63 - 1 ∧ number.toInt = value := by
  have bounded : bound = 2 ^ 63 := rfl
  rw [parse?]
  constructor
  · intro parsed
    dsimp only at parsed
    split at parsed
    · next value valued =>
        split at parsed
        · next below =>
            rw [bounded] at below
            obtain rfl := Option.some.inj parsed
            exact ⟨value, digits?_notationOf.mp valued, by omega,
              Int64.toInt_ofNat_of_lt below⟩
        · contradiction
    · contradiction
  · rintro ⟨value, denotes, le, same⟩
    have below : value < 2 ^ 63 := by omega
    have number : Int64.ofNat value = number := by
      rw [← Int64.toInt_inj, same, Int64.toInt_ofNat_of_lt below]
    simp only [digits?_notationOf.mpr denotes, bounded, if_pos below, number]

theorem parse?_eq_none_iff :
    parse? text = none ↔ ∀ value, Denotes text value → 2 ^ 63 ≤ value := by
  rw [Option.eq_none_iff_forall_ne_some]
  constructor
  · intro refused value denotes
    by_contra small
    have below : value < 2 ^ 63 := by omega
    exact refused (Int64.ofNat value) (parse?_eq_some_iff.mpr
      ⟨value, denotes, by omega, Int64.toInt_ofNat_of_lt below⟩)
  · intro large number parsed
    obtain ⟨value, denotes, le, -⟩ := parse?_eq_some_iff.mp parsed
    have := large value denotes
    omega

/-- A text is read as a number exactly if it denotes one in one of the four notations, and
that number is what it is read as; too large numbers are refused, and so are all texts that
denote none: those with a sign, without a digit, or that are not valid UTF-8. -/
theorem parse?_accepts_notations (text : Bytes) :
    (∀ number : Int64, parse? text = some number ↔
      ∃ value : Nat, Denotes text value ∧ value ≤ 2 ^ 63 - 1 ∧ number.toInt = value) ∧
    (parse? text = none ↔ ∀ value, Denotes text value → 2 ^ 63 ≤ value) ∧
    (∀ value other, Denotes text value → Denotes text other → value = other) ∧
    ((∃ byte ∈ text, byte = 0x2b ∨ byte = 0x2d) → parse? text = none) ∧
    ((∀ byte ∈ text, Byte.isHexDigit byte = false) → parse? text = none) ∧
    (Utf8.isValid text = false → parse? text = none) := by
  have refused (undenoted : ∀ value, ¬ Denotes text value) : parse? text = none :=
    parse?_eq_none_iff.mpr fun value denotes => absurd denotes (undenoted value)
  refine ⟨fun number => parse?_eq_some_iff, parse?_eq_none_iff,
    fun value other denotes also => denotes.unique also, ?signed, ?digitless, ?invalid⟩
  case signed =>
    rintro ⟨sign, signIn, isSign⟩
    refine refused fun value denotes => ?_
    obtain ⟨-, notPlus, notMinus⟩ := denotes.ascii sign signIn
    exact isSign.elim notPlus notMinus
  case digitless =>
    intro digitless
    refine refused fun value denotes => ?_
    obtain ⟨⟨byte, byteIn, isDigit⟩, -⟩ := denotes.bytes
    rw [digitless byte byteIn] at isDigit
    contradiction
  case invalid =>
    intro invalid
    refine refused fun value denotes => ?_
    rw [isValid_of_ascii fun byte byteIn => (denotes.ascii byte byteIn).1] at invalid
    contradiction

example : parse? (Bytes.ascii "0007fffFFFFffffFFFFH") = some Int64.maxValue := by decide

example : parse? (Bytes.ascii "8000000000000000h") = none := by decide

end Number
end Asm6502
