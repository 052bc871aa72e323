import Asm6502.Proofs.GrammarCongruence
import Asm6502.Proofs.ScanLocality
import Asm6502.Proofs.TokenLines

/-!
# Scanning ignores letter case

No class of bytes tells a capital from its small letter, letters begin nothing but
words, and words are looked up in lower case.  So a text in lower case has the tokens
of the text itself, with their letters in lower case.
-/

namespace Asm6502

namespace Byte

theorem lower_cases (byte : UInt8) :
    (isUpper byte = false ∧ lower byte = byte) ∨
      ∃ index : Fin 26, byte = UInt8.ofNat (0x41 + index) ∧
        lower byte = UInt8.ofNat (0x61 + index) := by
  unfold lower
  split
  · next capital =>
      right
      simp only [isUpper, Bool.and_eq_true, decide_eq_true_eq, UInt8.le_iff_toNat_le] at capital
      have low : 0x41 ≤ byte.toNat := capital.1
      have high : byte.toNat ≤ 0x5a := capital.2
      refine ⟨⟨byte.toNat - 0x41, by omega⟩, ?_, ?_⟩
      · apply UInt8.toNat_inj.mp
        simp
        omega
      · apply UInt8.toNat_inj.mp
        simp
        omega
  · next small => exact .inl ⟨Bool.not_eq_true _ ▸ small, rfl⟩

theorem congr_lower {α : Type} (f : UInt8 → α)
    (letters : ∀ index : Fin 26, f (UInt8.ofNat (0x61 + index)) = f (UInt8.ofNat (0x41 + index)))
    (byte : UInt8) : f (lower byte) = f byte := by
  rcases lower_cases byte with ⟨-, same⟩ | ⟨index, capital, small⟩
  · rw [same]
  · rw [small, capital, letters]

theorem lower_lower (byte : UInt8) : lower (lower byte) = lower byte :=
  congr_lower lower (by decide) byte

theorem toNat_char_of_startsWord {byte : UInt8} (starts : startsWord byte = true) :
    (0x41 ≤ (char byte).toNat ∧ (char byte).toNat ≤ 0x5a) ∨
      (0x61 ≤ (char byte).toNat ∧ (char byte).toNat ≤ 0x7a) ∨ (char byte).toNat = 0x5f := by
  simp only [startsWord, isUpper, isLower, Bool.or_eq_true, Bool.and_eq_true,
    decide_eq_true_eq, beq_iff_eq, UInt8.le_iff_toNat_le, ← UInt8.toNat_inj] at starts
  rw [toNat_char]
  exact or_assoc.mp starts

theorem lower_of_not_startsWord {byte : UInt8} (starts : startsWord byte = false) :
    lower byte = byte := by
  rcases lower_cases byte with ⟨-, same⟩ | ⟨index, rfl, -⟩
  · exact same
  · revert starts index
    decide

theorem lower_beq {other : UInt8} (notLetter : startsWord other = false) (byte : UInt8) :
    (lower byte == other) = (byte == other) := by
  have differs (letter : UInt8) (starts : startsWord letter = true) :
      (letter == other) = false := by
    rw [beq_eq_false_iff_ne]
    rintro rfl
    rw [starts] at notLetter
    contradiction
  refine congr_lower (· == other) (fun index => ?_) byte
  rw [differs _ (by revert index; decide), differs _ (by revert index; decide)]

theorem isDigit_of_startsWord {byte : UInt8} (starts : startsWord byte = true) :
    isDigit byte = false := by
  have word := toNat_char_of_startsWord starts
  rw [toNat_char] at word
  rw [isDigit, Bool.and_eq_false_iff, decide_eq_false_iff_not, decide_eq_false_iff_not,
    UInt8.le_iff_toNat_le, UInt8.le_iff_toNat_le]
  change ¬ 0x30 ≤ byte.toNat ∨ ¬ byte.toNat ≤ 0x39
  omega

end Byte

namespace Bytes

theorem length_lower (text : Bytes) : (lower text).length = text.length :=
  List.length_map _

theorem lower_cons (byte : UInt8) (rest : Bytes) :
    lower (byte :: rest) = Byte.lower byte :: lower rest :=
  rfl

theorem take_lower (count : Nat) (text : Bytes) :
    (lower text).take count = lower (text.take count) :=
  List.map_take.symm

theorem lower_lower (text : Bytes) : lower (lower text) = lower text := by
  simp [lower, Byte.lower_lower, Function.comp_def]

theorem any_head?_lower (holds : UInt8 → Bool)
    (blind : ∀ byte, holds (Byte.lower byte) = holds byte) (text : Bytes) :
    (lower text).head?.any holds = text.head?.any holds := by
  cases text with
  | nil => rfl
  | cons byte rest => exact blind byte

theorem atLineEnd_lower (text : Bytes) : atLineEnd (lower text) = atLineEnd text := by
  cases text with
  | nil => rfl
  | cons byte rest =>
      rw [lower_cons, atLineEnd_cons, atLineEnd_cons,
        any_head?_lower (· == 0x0a) (Byte.congr_lower (· == 0x0a) (by decide)),
        Byte.congr_lower (· == 0x0a) (by decide), Byte.congr_lower (· == 0x0d) (by decide)]

theorem lineLength_lower (text : Bytes) : lineLength (lower text) = lineLength text := by
  induction text with
  | nil => rfl
  | cons byte rest ih =>
      have sameEnd := atLineEnd_lower (byte :: rest)
      rw [lower_cons] at sameEnd ⊢
      rw [lineLength, lineLength, sameEnd, ih]

end Bytes

namespace Scan

open Bytes (lower)

theorem run_lower (holds : UInt8 → Bool) (blind : ∀ byte, holds (Byte.lower byte) = holds byte)
    (text : Bytes) : run holds (lower text) = run holds text := by
  rw [run, run, lower, List.takeWhile_map, List.length_map]
  congr 2
  exact funext blind

theorem nextIs_lower (holds : UInt8 → Bool)
    (blind : ∀ byte, holds (Byte.lower byte) = holds byte) (text : Bytes) :
    nextIs holds (lower text) = nextIs holds text :=
  Bytes.any_head?_lower holds blind text

theorem blankRun_lower (text : Bytes) : blankRun (lower text) = blankRun text := by
  induction text with
  | nil => rfl
  | cons byte rest ih =>
      have sameEnd := Bytes.atLineEnd_lower (byte :: rest)
      rw [Bytes.lower_cons] at sameEnd ⊢
      rw [blankRun, blankRun, sameEnd, ih, Byte.congr_lower Byte.isBlank (by decide)]

theorem closing?_lower {quote : UInt8} (notLetter : Byte.startsWord quote = false)
    (text : Bytes) : closing? quote (lower text) = closing? quote text := by
  induction text with
  | nil => rfl
  | cons byte rest ih =>
      have sameEnd := Bytes.atLineEnd_lower (byte :: rest)
      rw [Bytes.lower_cons] at sameEnd ⊢
      rw [closing?, closing?, sameEnd, ih, Byte.lower_beq notLetter]

theorem lineEndLength_cons (byte : UInt8) (rest : Bytes) :
    lineEndLength (byte :: rest) =
      if byte == 0x0a then 1 else if Bytes.atLineEnd (byte :: rest) then 2 else 0 := by
  unfold lineEndLength Bytes.atLineEnd
  split
  · next same =>
      obtain ⟨rfl, rfl⟩ := List.cons.inj same
      rfl
  · next same =>
      obtain ⟨rfl, rfl⟩ := List.cons.inj same
      rfl
  · next notNewline _ =>
      have byteNe : (byte == 0x0a) = false := by
        simpa using fun same => notNewline rest (by rw [same])
      simp [byteNe]

theorem lineEndLength_lower (text : Bytes) : lineEndLength (lower text) = lineEndLength text := by
  cases text with
  | nil => rfl
  | cons byte rest =>
      have sameEnd := Bytes.atLineEnd_lower (byte :: rest)
      rw [Bytes.lower_cons] at sameEnd ⊢
      rw [lineEndLength_cons, lineEndLength_cons, sameEnd, Byte.congr_lower (· == 0x0a) (by decide)]

theorem startsToken_of_startsWord {byte : UInt8} (starts : Byte.startsWord byte = true)
    (rest : Bytes) : startsToken byte rest = true := by
  have word := Byte.toNat_char_of_startsWord starts
  unfold startsToken
  split <;> first
    | rfl
    | simp [Byte.continuesWord, starts]
    | (rename_i same; rw [same] at word; exact absurd word (by decide))

theorem startsToken_lower (byte : UInt8) (rest : Bytes) :
    startsToken (Byte.lower byte) (lower rest) = startsToken byte rest := by
  cases starts : Byte.startsWord byte with
  | true =>
      rw [startsToken_of_startsWord starts, startsToken_of_startsWord]
      rw [Byte.congr_lower Byte.startsWord (by decide), starts]
  | false =>
      rw [Byte.lower_of_not_startsWord starts]
      unfold startsToken
      rw [nextIs_lower _ (Byte.congr_lower Byte.isHexDigit (by decide)),
        nextIs_lower _ (Byte.congr_lower Byte.isBinaryDigit (by decide)),
        nextIs_lower _ (Byte.congr_lower Byte.startsWord (by decide)),
        nextIs_lower _ (Byte.congr_lower
          (fun next => next == Byte.newline || next == Byte.carriageReturn) (by decide))]

theorem strayRun_lower (text : Bytes) : strayRun (lower text) = strayRun text := by
  induction text with
  | nil => rfl
  | cons byte rest ih => rw [Bytes.lower_cons, strayRun, strayRun, startsToken_lower, ih]

theorem double?_of_startsWord {byte : UInt8} (starts : Byte.startsWord byte = true)
    (first : Char) : double? first (Byte.char byte) = none := by
  have word := Byte.toNat_char_of_startsWord starts
  unfold double?
  split <;> first
    | rfl
    | (rename_i same; rw [same] at word; exact absurd word (by decide))

theorem double?_lower (first : Char) (byte : UInt8) :
    double? first (Byte.char (Byte.lower byte)) = double? first (Byte.char byte) := by
  cases starts : Byte.startsWord byte with
  | true =>
      rw [double?_of_startsWord starts, double?_of_startsWord]
      rw [Byte.congr_lower Byte.startsWord (by decide), starts]
  | false => rw [Byte.lower_of_not_startsWord starts]

theorem operator_lower (first : Char) (alone : Kind) (rest : Bytes) :
    operator first alone (lower rest) = operator first alone rest := by
  cases rest with
  | nil => rfl
  | cons byte rest =>
      simp only [operator, Bytes.lower_cons, List.head?_cons, Option.bind_some, double?_lower]

theorem colon_of_startsWord {byte : UInt8} (starts : Byte.startsWord byte = true)
    (atLineStart : Bool) (rest : Bytes) : colon atLineStart (byte :: rest) = (.colon, 0) := by
  have word := Byte.toNat_char_of_startsWord starts
  cases atLineStart with
  | true => rfl
  | false =>
      rw [colon, if_neg Bool.false_ne_true]
      split <;> first
        | rfl
        | (rename_i same; rw [same] at word; exact absurd word (by decide))

theorem colon_lower (atLineStart : Bool) (rest : Bytes) :
    colon atLineStart (lower rest) = colon atLineStart rest := by
  cases rest with
  | nil => rfl
  | cons byte rest =>
      rw [Bytes.lower_cons]
      cases starts : Byte.startsWord byte with
      | true =>
          rw [colon_of_startsWord starts, colon_of_startsWord]
          rw [Byte.congr_lower Byte.startsWord (by decide), starts]
      | false =>
          have same := run_lower (· == byte) (Byte.lower_beq starts) (byte :: rest)
          rw [Bytes.lower_cons] at same
          rw [Byte.lower_of_not_startsWord starts] at same ⊢
          unfold colon
          simp only [same]

theorem character_lower (rest : Bytes) : character (lower rest) = character rest := by
  have behind : (lower rest).drop 1 = lower (rest.drop 1) := by rw [lower, lower, List.map_drop]
  rw [character_eq, character_eq, behind,
    Bytes.any_head?_lower (· == 0x27) (Byte.lower_beq (by decide)), Bytes.atLineEnd_lower,
    closing?_lower (by decide), Bytes.lineLength_lower]

theorem stringLiteral_lower (rest : Bytes) : stringLiteral (lower rest) = stringLiteral rest := by
  rw [stringLiteral, stringLiteral, closing?_lower (by decide), Bytes.lineLength_lower]

theorem stray_lower (rest : Bytes) : stray (lower rest) = stray rest := by
  rw [stray, stray, strayRun_lower]

theorem plainWord_congr (dialect : Dialect) {word other : Bytes} (same : lower word = lower other) :
    plainWord dialect word = plainWord dialect other := by
  rw [plainWord, plainWord, dialect.keyword?_congr same]

theorem dottedWord_congr (dialect : Dialect) {word other : Bytes}
    (same : lower word = lower other) : dottedWord dialect word = dottedWord dialect other := by
  rw [dottedWord, dottedWord, dialect.keyword?_congr same]

theorem single?_of_startsWord {byte : UInt8} (starts : Byte.startsWord byte = true) :
    single? (Byte.char byte) = none := by
  have word := Byte.toNat_char_of_startsWord starts
  unfold single?
  split <;> first
    | rfl
    | (rename_i same; rw [same] at word; exact absurd word (by decide))

theorem classify_of_startsWord {first : UInt8} (starts : Byte.startsWord first = true)
    (dialect : Dialect) (atLineStart : Bool) (rest : Bytes) :
    classify dialect atLineStart first rest =
      (plainWord dialect (first :: rest.take (run Byte.continuesWord rest)),
        run Byte.continuesWord rest) := by
  have word := Byte.toNat_char_of_startsWord starts
  rw [classify, single?_of_startsWord starts]
  dsimp only
  split <;> first
    | (rename_i same; rw [same] at word; exact absurd word (by decide))
    | simp [Byte.isDigit_of_startsWord starts, starts]

/-- The kind and the length of a token do not depend on letter case. -/
theorem classify_lower (dialect : Dialect) (atLineStart : Bool) (first : UInt8) (rest : Bytes) :
    classify dialect atLineStart (Byte.lower first) (lower rest) =
      classify dialect atLineStart first rest := by
  have words := run_lower Byte.continuesWord (Byte.congr_lower Byte.continuesWord (by decide)) rest
  cases starts : Byte.startsWord first with
  | true =>
      have lowerStarts : Byte.startsWord (Byte.lower first) = true := by
        rw [Byte.congr_lower Byte.startsWord (by decide), starts]
      rw [classify_of_startsWord starts, classify_of_startsWord lowerStarts, words,
        Bytes.take_lower]
      congr 1
      apply plainWord_congr
      rw [← Bytes.lower_cons, Bytes.lower_lower]
  | false =>
      have dotted (count : Nat) : dottedWord dialect (first :: (lower rest).take count) =
          dottedWord dialect (first :: rest.take count) := by
        apply dottedWord_congr
        rw [Bytes.take_lower, Bytes.lower_cons, Bytes.lower_lower, Bytes.lower_cons]
      have newline : ((lower rest).head? == some Byte.newline) =
          (rest.head? == some Byte.newline) := by
        cases rest with
        | nil => rfl
        | cons byte rest => exact Byte.lower_beq (by decide) byte
      rw [Byte.lower_of_not_startsWord starts]
      unfold classify
      simp only [starts, words, dotted, newline, blankRun_lower, Bytes.lineLength_lower,
        Bytes.atLineEnd_lower, lineEndLength_lower, stray_lower, colon_lower, operator_lower,
        character_lower, stringLiteral_lower,
        run_lower _ (Byte.congr_lower Byte.isHexDigit (by decide)),
        run_lower _ (Byte.congr_lower Byte.isBinaryDigit (by decide)),
        nextIs_lower _ (Byte.congr_lower Byte.isHexDigit (by decide)),
        nextIs_lower _ (Byte.congr_lower Byte.isBinaryDigit (by decide)),
        nextIs_lower _ (Byte.congr_lower Byte.startsWord (by decide)), Bool.false_eq_true,
        if_false]

end Scan

/-- The token with its letters in lower case. -/
def Token.lower (token : Token) : Token :=
  { token with text := Bytes.lower token.text }

theorem Scan.scanFrom_lower (dialect : Dialect) (atLineStart : Bool) (skip : Nat) (text : Bytes) :
    scanFrom dialect atLineStart skip (Bytes.lower text) =
      (scanFrom dialect atLineStart skip text).map Token.lower := by
  induction text generalizing atLineStart skip with
  | nil => simp [scanFrom, Bytes.lower]
  | cons first rest ih =>
      rw [Bytes.lower_cons]
      cases skip with
      | succ skip => exact ih atLineStart skip
      | zero =>
          simp only [scanFrom, classify_lower, ih, Bytes.take_lower]
          rfl

end Asm6502
