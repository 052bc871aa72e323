import Asm6502.Number
import Asm6502.Proofs.LetterCase
import Asm6502.Proofs.SpacedTokens

/-!
# Numerals

A number is written in one of four notations.  Whatever its digits, it is scanned as a
single token, and its value is the number that the digits spell.
-/

namespace Asm6502

@[elab_as_elim]
theorem Byte.of_table {motive : UInt8 → Prop}
    (table : ∀ byte : Fin 256, motive (UInt8.ofNat byte)) (byte : UInt8) : motive byte := by
  have row := table ⟨byte.toNat, byte.toNat_lt⟩
  rwa [UInt8.ofNat_toNat] at row

namespace Number

/-- The digits of all radixes in order. -/
def alphabet : Bytes :=
  Bytes.ascii "0123456789abcdef"

/-- A byte is a digit below the radix, in either letter case. -/
structure IsDigit (radix : Nat) (byte : UInt8) (digit : Nat) : Prop where
  spelled : alphabet[digit]? = some (Byte.lower byte)
  below : digit < radix

/-- One or more digits spell a number. -/
inductive Spell (radix : Nat) : (digits : Bytes) → (value : Nat) → Prop
  | single {byte : UInt8} {digit : Nat} : IsDigit radix byte digit → Spell radix [byte] digit
  | more {digits : Bytes} {byte : UInt8} {value digit : Nat} :
      Spell radix digits value → IsDigit radix byte digit →
        Spell radix (digits ++ [byte]) (value * radix + digit)

/-- A text is a numeral: digits behind a dollar sign or a percent sign, hexadecimal
digits in front of the letter H and behind a decimal one, or decimal digits. -/
inductive IsNumeral : (text : Bytes) → (value : Nat) → Prop
  | hexadecimal {digits : Bytes} {value : Nat} :
      Spell 16 digits value → IsNumeral (0x24 :: digits) value
  | binary {digits : Bytes} {value : Nat} :
      Spell 2 digits value → IsNumeral (0x25 :: digits) value
  | suffixed {first mark : UInt8} {digits : Bytes} {value : Nat} :
      Spell 16 (first :: digits) value → Byte.isDigit first = true → Byte.lower mark = 0x68 →
        IsNumeral (first :: digits ++ [mark]) value
  | decimal {digits : Bytes} {value : Nat} : Spell 10 digits value → IsNumeral digits value

variable {radix value digit : Nat} {byte first : UInt8} {digits text : Bytes}

theorem digit_table (byte : UInt8) : ∀ digit : Fin 16,
    alphabet[digit]? = some (Byte.lower byte) →
      digit? byte = some digit.val ∧ Byte.isHexDigit byte = true ∧
        Byte.continuesWord byte = true ∧ (digit.val < 10 → Byte.isDigit byte = true) ∧
        (digit.val < 2 → Byte.isBinaryDigit byte = true) :=
  Byte.of_table (by decide +kernel) byte

theorem IsDigit.classes (isDigit : IsDigit radix byte digit) :
    digit? byte = some digit ∧ Byte.isHexDigit byte = true ∧ Byte.continuesWord byte = true ∧
      (digit < 10 → Byte.isDigit byte = true) ∧
      (digit < 2 → Byte.isBinaryDigit byte = true) := by
  obtain ⟨small, -⟩ := List.getElem?_eq_some_iff.mp isDigit.spelled
  exact digit_table byte ⟨digit, small⟩ isDigit.spelled

theorem IsDigit.append? (isDigit : IsDigit radix byte digit) (number : Nat) :
    append? radix number byte = some (number * radix + digit) := by
  rw [Number.append?, isDigit.classes.1]
  exact if_pos isDigit.below

theorem Spell.exists_digit (spell : Spell radix digits value) :
    ∀ byte ∈ digits, ∃ digit, IsDigit radix byte digit := by
  induction spell with
  | single isDigit =>
      intro byte member
      obtain rfl := List.mem_singleton.mp member
      exact ⟨_, isDigit⟩
  | more _ isDigit ih =>
      intro byte member
      rcases List.mem_append.mp member with early | late
      · exact ih byte early
      · obtain rfl := List.mem_singleton.mp late
        exact ⟨_, isDigit⟩

theorem Spell.isHexDigit (spell : Spell radix digits value) (member : byte ∈ digits) :
    Byte.isHexDigit byte = true := by
  obtain ⟨_, isDigit⟩ := spell.exists_digit byte member
  exact isDigit.classes.2.1

theorem Spell.ne_nil (spell : Spell radix digits value) : digits ≠ [] := by
  cases spell <;> simp

theorem Spell.digits? (spell : Spell radix digits value) :
    digits? radix digits = some value := by
  have folded : digits.foldlM (Number.append? radix) 0 = some value := by
    induction spell with
    | single isDigit =>
        rw [List.foldlM_cons, isDigit.append?]
        simp
    | more _ isDigit ih =>
        rw [List.foldlM_append, ih]
        simp [isDigit.append?]
  rw [Number.digits?, List.isEmpty_eq_false_iff.mpr spell.ne_nil]
  exact folded

/-- The ten bytes that are decimal digits. -/
theorem mem_decimals : Byte.isDigit byte = true →
    byte ∈ ([0x30, 0x31, 0x32, 0x33, 0x34, 0x35, 0x36, 0x37, 0x38, 0x39] : Bytes) :=
  Byte.of_table (by decide +kernel) byte

theorem notationOf_decimal (isDigit : Byte.isDigit first = true) (rest : Bytes) :
    notationOf (first :: rest) =
      if (first :: rest).getLast?.any fun byte => Byte.lower byte == 0x68 then
        (16, (first :: rest).dropLast)
      else (10, first :: rest) := by
  have member := mem_decimals isDigit
  simp only [List.mem_cons, List.not_mem_nil, or_false] at member
  rcases member with rfl | rfl | rfl | rfl | rfl | rfl | rfl | rfl | rfl | rfl <;> rfl

theorem notationOf_digits (nonempty : digits ≠ [])
    (decimal : ∀ byte ∈ digits, Byte.isDigit byte = true) : notationOf digits = (10, digits) := by
  obtain ⟨first, rest, rfl⟩ := List.exists_cons_of_ne_nil nonempty
  have noMark : ∀ byte ∈ (first :: rest).getLast?, ¬ (Byte.lower byte == 0x68) = true := by
    intro byte isLast
    have member := mem_decimals (decimal byte (List.mem_of_getLast? isLast))
    simp only [List.mem_cons, List.not_mem_nil, or_false] at member
    rcases member with rfl | rfl | rfl | rfl | rfl | rfl | rfl | rfl | rfl | rfl <;> decide
  rw [notationOf_decimal (decimal first List.mem_cons_self), if_neg]
  rw [Option.any_eq_true_iff_get]
  rintro ⟨isSome, isMark⟩
  exact noMark _ (Option.get_mem isSome) isMark

theorem run_of_all {holds : UInt8 → Bool} (all : ∀ byte ∈ digits, holds byte = true) :
    Scan.run holds digits = digits.length := by
  have taken : (digits ++ []).takeWhile holds = digits ++ [].takeWhile holds :=
    List.takeWhile_append_of_pos all
  rw [List.append_nil, List.takeWhile_nil, List.append_nil] at taken
  rw [Scan.run, taken]

theorem nextIs_of_all {holds : UInt8 → Bool} (nonempty : digits ≠ [])
    (all : ∀ byte ∈ digits, holds byte = true) : Scan.nextIs holds digits = true := by
  obtain ⟨first, rest, rfl⟩ := List.exists_cons_of_ne_nil nonempty
  exact all first List.mem_cons_self

theorem standsAlone_number {dialect : Dialect} {rest : Bytes}
    (classified : Scan.classify dialect false first rest = (.number, rest.length)) :
    Token.StandsAlone dialect ⟨.number, first :: rest⟩ where
  scanned := by
    rw [Scan.scanFrom_cons, Scan.firstToken, classified, List.take_length, List.drop_length]
    rfl
  isMark := rfl

theorem classify_decimal (dialect : Dialect) (isDigit : Byte.isDigit first = true)
    (rest : Bytes) :
    Scan.classify dialect false first rest = (.number, Scan.run Byte.continuesWord rest) := by
  have member := mem_decimals isDigit
  simp only [List.mem_cons, List.not_mem_nil, or_false] at member
  rcases member with rfl | rfl | rfl | rfl | rfl | rfl | rfl | rfl | rfl | rfl <;> rfl

theorem IsNumeral.standsAlone (dialect : Dialect) (numeral : IsNumeral text value) :
    Token.StandsAlone dialect ⟨.number, text⟩ := by
  cases numeral with
  | @hexadecimal digits _ spell =>
      have all : ∀ byte ∈ digits, Byte.isHexDigit byte = true := fun byte member =>
        spell.isHexDigit member
      have classified : Scan.classify dialect false 0x24 digits =
          if Scan.nextIs Byte.isHexDigit digits then
            (.number, Scan.run Byte.isHexDigit digits)
          else Scan.stray digits := rfl
      rw [if_pos (nextIs_of_all spell.ne_nil all), run_of_all all] at classified
      exact standsAlone_number classified
  | @binary digits _ spell =>
      have all : ∀ byte ∈ digits, Byte.isBinaryDigit byte = true := fun byte member =>
        let ⟨_, isDigit⟩ := spell.exists_digit byte member
        isDigit.classes.2.2.2.2 isDigit.below
      have classified : Scan.classify dialect false 0x25 digits =
          if Scan.nextIs Byte.isBinaryDigit digits then
            (.number, Scan.run Byte.isBinaryDigit digits)
          else Scan.stray digits := rfl
      rw [if_pos (nextIs_of_all spell.ne_nil all), run_of_all all] at classified
      exact standsAlone_number classified
  | @suffixed first mark digits _ spell isDecimal isMark =>
      have all : ∀ byte ∈ digits ++ [mark], Byte.continuesWord byte = true := by
        intro byte member
        rcases List.mem_append.mp member with early | late
        · obtain ⟨_, isDigit⟩ := spell.exists_digit byte (List.mem_cons_of_mem _ early)
          exact isDigit.classes.2.2.1
        · obtain rfl := List.mem_singleton.mp late
          rw [← Byte.congr_lower Byte.continuesWord (by decide), isMark]
          rfl
      have classified := classify_decimal dialect isDecimal (digits ++ [mark])
      rw [run_of_all all] at classified
      exact standsAlone_number classified
  | decimal spell =>
      obtain ⟨first, rest, rfl⟩ := List.exists_cons_of_ne_nil spell.ne_nil
      have all : ∀ byte ∈ rest, Byte.continuesWord byte = true := fun byte member =>
        let ⟨_, isDigit⟩ := spell.exists_digit byte (List.mem_cons_of_mem _ member)
        isDigit.classes.2.2.1
      obtain ⟨_, isDigit⟩ := spell.exists_digit first List.mem_cons_self
      have classified := classify_decimal dialect (isDigit.classes.2.2.2.1 isDigit.below) rest
      rw [run_of_all all] at classified
      exact standsAlone_number classified

end Number
end Asm6502
