import Asm6502.Proofs.LetterCase
import Asm6502.Proofs.ParseShape
import Asm6502.Proofs.TwinReadings

/-!
# Parsing ignores letter case

Two texts that differ in nothing but the case of ASCII letters have tokens that the
grammar takes for the same, so they are read in step.  As their tokens are of the same
length, their trees are equal and their diagnostics stand at the same spans.  The only
message that repeats what the text says quotes the word of an unknown directive, and
decoding commutes with taking letters to lower case.
-/

namespace Asm6502

open List (Forall₂)

namespace Utf8

open Bytes (lower)

theorem toLower_of_outside {character : Char}
    (outside : character.toNat < 0x41 ∨ 0x5a < character.toNat) :
    character.toLower = character := by
  apply dif_neg
  rintro ⟨low, high⟩
  have low : 0x41 ≤ character.toNat := UInt32.le_iff_toNat_le.mp low
  have high : character.toNat ≤ 0x5a := UInt32.le_iff_toNat_le.mp high
  omega

theorem toLower_ofNat {number : Nat} (large : 0x80 ≤ number) :
    (Char.ofNat number).toLower = Char.ofNat number := by
  by_cases valid : number.isValidChar
  · apply toLower_of_outside
    rw [Char.ofNat, dif_pos valid]
    right
    change 0x5a < number
    omega
  · rw [Char.ofNat, dif_neg valid]
    rfl

theorem char_lower (byte : UInt8) : Byte.char (Byte.lower byte) = (Byte.char byte).toLower := by
  rcases Byte.lower_cases byte with ⟨notCapital, same⟩ | ⟨index, rfl, small⟩
  · rw [same, toLower_of_outside]
    rw [Byte.toNat_char]
    simp only [Byte.isUpper, Bool.and_eq_false_iff, decide_eq_false_iff_not,
      UInt8.le_iff_toNat_le] at notCapital
    change ¬ 0x41 ≤ byte.toNat ∨ ¬ byte.toNat ≤ 0x5a at notCapital
    omega
  · rw [small]
    revert index
    decide

theorem lower_of_high {byte : UInt8} (high : 0x80 ≤ byte.toNat) : Byte.lower byte = byte := by
  rcases Byte.lower_cases byte with ⟨-, same⟩ | ⟨index, rfl, -⟩
  · exact same
  · revert high index
    decide

theorem high_of_isContinuation {byte : UInt8} (continues : isContinuation byte = true) :
    0x80 ≤ byte.toNat ∧ byte.toNat ≤ 0xbf := by
  simpa [isContinuation, UInt8.le_iff_toNat_le] using continues

theorem high_of_allowsSecond {first second : UInt8}
    (allowed : allowsSecond first second = true) :
    (0x80 ≤ second.toNat ∧ second.toNat ≤ 0xbf) ∧
      (first = 0xe0 → 0xa0 ≤ second.toNat) ∧ (first = 0xf0 → 0x90 ≤ second.toNat) := by
  unfold allowsSecond at allowed
  split at allowed
  · simp_all [UInt8.le_iff_toNat_le]
    omega
  · split at allowed
    · simp_all [UInt8.le_iff_toNat_le]
      omega
    · split at allowed
      · simp_all [UInt8.le_iff_toNat_le]
        omega
      · split at allowed
        · simp_all [UInt8.le_iff_toNat_le]
          omega
        · have := high_of_isContinuation allowed
          simp_all

theorem isContinuation_lower (byte : UInt8) :
    isContinuation (Byte.lower byte) = isContinuation byte :=
  Byte.congr_lower isContinuation (by decide) byte

theorem allowsSecond_lower (first second : UInt8) :
    allowsSecond first (Byte.lower second) = allowsSecond first second := by
  have refused {byte : UInt8} (low : byte.toNat < 0x80) : allowsSecond first byte = false := by
    rw [Bool.eq_false_iff]
    intro allowed
    have high := (high_of_allowsSecond allowed).1.1
    omega
  rcases Byte.lower_cases second with ⟨-, same⟩ | ⟨index, rfl, small⟩
  · rw [same]
  · rw [small, refused (by revert index; decide), refused (by revert index; decide)]

theorem tailLength_lower (first : UInt8) (width : Nat) (rest : Bytes) :
    tailLength first width (lower rest) = tailLength first width rest := by
  cases rest with
  | nil => rfl
  | cons second others =>
      have runs : ((lower others).take (width - 2)).takeWhile isContinuation =
          ((others.take (width - 2)).takeWhile isContinuation).map Byte.lower := by
        rw [lower, ← List.map_take, List.takeWhile_map]
        congr 2
        exact funext isContinuation_lower
      rw [Bytes.lower_cons, tailLength, tailLength, allowsSecond_lower, runs, List.length_map]

theorem next_of_ascii {first : UInt8} (ascii : first.toNat < 0x80) (rest : Bytes) :
    next first rest = (some (Byte.char first), 0) := by
  have single : width? first = some 1 := by
    rw [width?, if_pos]
    rw [UInt8.le_iff_toNat_le]
    exact Nat.le_of_lt_succ ascii
  have none : tailLength first 1 rest = 0 := by cases rest <;> rfl
  rw [next, single]
  simp only [none]
  rfl

theorem take_tailLength {first : UInt8} {width : Nat} {rest : Bytes} (several : 2 ≤ width)
    (complete : tailLength first width rest + 1 = width) :
    ∃ second more, rest.take (tailLength first width rest) = second :: more ∧
      allowsSecond first second = true ∧ (∀ byte ∈ more, isContinuation byte = true) ∧
        more.length + 2 = width := by
  cases rest with
  | nil =>
      have alone : 0 + 1 = width := complete
      omega
  | cons second others =>
      rw [tailLength] at complete ⊢
      split at complete
      · omega
      · next allowed =>
          rw [if_neg allowed]
          have accepted : allowsSecond first second = true := by
            simp only [Bool.or_eq_true, decide_eq_true_eq, Bool.not_eq_true', not_or,
              Bool.not_eq_false] at allowed
            exact allowed.2
          have whole := List.takeWhile_prefix (l := others.take (width - 2)) isContinuation
          have bounded := List.length_take_le (width - 2) others
          have all : (others.take (width - 2)).takeWhile isContinuation =
              others.take (width - 2) := by
            apply whole.eq_of_length_le
            omega
          rw [all] at complete ⊢
          refine ⟨second, others.take (width - 2), ?_, accepted, ?_, by omega⟩
          · rw [List.take_succ_cons]
            congr 1
            rw [List.length_take]
            congr 1
            have := whole.length_le
            rw [List.length_take] at complete
            omega
          · intro byte member
            rw [← all] at member
            exact List.all_eq_true.mp
              (List.all_takeWhile (l := others.take (width - 2))) byte member

theorem width?_cases {first : UInt8} {width : Nat} (found : width? first = some width)
    (high : 0x80 ≤ first.toNat) :
    (width = 2 ∧ 0xc2 ≤ first.toNat ∧ first.toNat ≤ 0xdf) ∨
      (width = 3 ∧ 0xe0 ≤ first.toNat ∧ first.toNat ≤ 0xef) ∨
        (width = 4 ∧ 0xf0 ≤ first.toNat ∧ first.toNat ≤ 0xf4) := by
  simp only [width?, Bool.and_eq_true, decide_eq_true_eq, UInt8.le_iff_toNat_le] at found
  change (if first.toNat ≤ 0x7f then some 1
    else if 0xc2 ≤ first.toNat ∧ first.toNat ≤ 0xdf then some 2
    else if 0xe0 ≤ first.toNat ∧ first.toNat ≤ 0xef then some 3
    else if 0xf0 ≤ first.toNat ∧ first.toNat ≤ 0xf4 then some 4
    else none) = some width at found
  split at found
  · omega
  · split at found
    · simp_all
    · split at found
      · simp_all
      · split at found
        · simp_all
        · contradiction

/-- Surrogates and numbers behind the last character are ruled out by the second byte. -/
theorem le_of_allowsSecond {first second : UInt8} (allowed : allowsSecond first second = true) :
    (first = 0xed → second.toNat ≤ 0x9f) ∧ (first = 0xf4 → second.toNat ≤ 0x8f) := by
  constructor
  · rintro rfl
    have range : 0x80 ≤ second ∧ second ≤ 0x9f := by simpa [allowsSecond] using allowed
    exact UInt8.le_iff_toNat_le.mp range.2
  · rintro rfl
    have range : 0x80 ≤ second ∧ second ≤ 0x8f := by simpa [allowsSecond] using allowed
    exact UInt8.le_iff_toNat_le.mp range.2

theorem codePoint_cases {first : UInt8} {width : Nat} {rest : Bytes}
    (high : 0x80 ≤ first.toNat) (found : width? first = some width)
    (complete : tailLength first width rest + 1 = width) {number : Nat}
    (isNumber : codePoint first width (rest.take (tailLength first width rest)) = number) :
    (width = 2 ∧ 0x80 ≤ number ∧ number < 0x800) ∨
      (width = 3 ∧ 0x800 ≤ number ∧ number < 0x10000 ∧ (number < 0xd800 ∨ 0xdfff < number)) ∨
        (width = 4 ∧ 0x10000 ≤ number ∧ number < 0x110000) := by
  have widths := width?_cases found high
  obtain ⟨second, more, tail, allowed, continues, length⟩ :=
    take_tailLength (by omega) complete
  have bounds := high_of_allowsSecond allowed
  have upper := le_of_allowsSecond allowed
  rw [tail] at isNumber
  rcases widths with ⟨rfl, low, up⟩ | ⟨rfl, low, up⟩ | ⟨rfl, low, up⟩
  · obtain rfl := List.eq_nil_of_length_eq_zero (by omega : more.length = 0)
    simp only [codePoint, List.foldl_cons, List.foldl_nil] at isNumber
    omega
  · obtain ⟨third, rfl⟩ := List.length_eq_one_iff.mp (by omega : more.length = 1)
    have overlong : first.toNat = 0xe0 → 0xa0 ≤ second.toNat :=
      fun same => bounds.2.1 (UInt8.toNat_inj.mp same)
    have surrogate : first.toNat = 0xed → second.toNat ≤ 0x9f :=
      fun same => upper.1 (UInt8.toNat_inj.mp same)
    simp only [codePoint, List.foldl_cons, List.foldl_nil] at isNumber
    omega
  · obtain ⟨third, fourth, rfl⟩ := List.length_eq_two.mp (by omega : more.length = 2)
    have overlong : first.toNat = 0xf0 → 0x90 ≤ second.toNat :=
      fun same => bounds.2.2 (UInt8.toNat_inj.mp same)
    have last : first.toNat = 0xf4 → second.toNat ≤ 0x8f :=
      fun same => upper.2 (UInt8.toNat_inj.mp same)
    simp only [codePoint, List.foldl_cons, List.foldl_nil] at isNumber
    omega

theorem next_lower (first : UInt8) (rest : Bytes) :
    next (Byte.lower first) (lower rest) =
      ((next first rest).1.map Char.toLower, (next first rest).2) := by
  by_cases ascii : first.toNat < 0x80
  · have lowerAscii : (Byte.lower first).toNat < 0x80 := by
      rcases Byte.lower_cases first with ⟨-, same⟩ | ⟨index, -, small⟩
      · rwa [same]
      · rw [small]
        clear small
        revert index
        decide
    rw [next_of_ascii ascii, next_of_ascii lowerAscii, char_lower]
    rfl
  · have high : 0x80 ≤ first.toNat := Nat.le_of_not_lt ascii
    rw [lower_of_high high, next, next]
    cases found : width? first with
    | none => rfl
    | some width =>
        simp only [tailLength_lower]
        split
        · next complete =>
            have widths := width?_cases found high
            obtain ⟨second, more, tail, allowed, continues, -⟩ :=
              take_tailLength (by omega) complete
            have same : (lower rest).take (tailLength first width rest) =
                rest.take (tailLength first width rest) := by
              rw [lower, ← List.map_take]
              conv_rhs => rw [← List.map_id (rest.take _)]
              apply List.map_congr_left
              intro byte member
              apply lower_of_high
              rw [tail] at member
              rcases List.mem_cons.mp member with rfl | later
              · exact (high_of_allowsSecond allowed).1.1
              · exact (high_of_isContinuation (continues byte later)).1
            have numbers := codePoint_cases high found complete rfl
            rw [same, Option.map_some, toLower_ofNat (by omega)]
        · rfl

theorem charsFrom_lower (skip : Nat) (text : Bytes) :
    charsFrom skip (lower text) = (charsFrom skip text).map (Option.map Char.toLower) := by
  induction text generalizing skip with
  | nil => cases skip <;> rfl
  | cons first rest ih =>
      rw [Bytes.lower_cons]
      cases skip with
      | succ skip => exact ih skip
      | zero => simp only [charsFrom, next_lower, ih, List.map_cons]

theorem toList_toLower (text : String) : text.toLower.toList = text.toList.map Char.toLower :=
  String.toList_map

/-- Decoding commutes with taking letters to lower case. -/
theorem decode_lower (text : Bytes) : decode (lower text) = (decode text).toLower := by
  rw [decode, decode, ← String.toList_inj, toList_toLower,
    String.toList_ofList, String.toList_ofList, chars, chars, charsFrom_lower, List.map_map,
    List.map_map]
  apply List.map_congr_left
  intro char? _
  cases char? <;> rfl

end Utf8

theorem Cause.toLower_unknownDirective (word : String) :
    (Cause.unknownDirective word).message.toLower =
      (Cause.unknownDirective word.toLower).message := by
  change ("unknown directive " ++ ("`" ++ word ++ "`")).toLower =
    "unknown directive " ++ ("`" ++ word.toLower ++ "`")
  rw [← String.toList_inj]
  simp only [Utf8.toList_toLower, String.toList_append, List.map_append]
  rfl

/-- A fault of two texts at the same span, worded the same up to letter case.  The
wordings are equal unless each quotes its own spelling of an unknown directive. -/
structure Diagnostic.SameButCase (diagnostic other : Diagnostic) : Prop where
  span : diagnostic.span = other.span
  toLower : diagnostic.message.toLower = other.message.toLower
  wording :
    diagnostic.message = other.message ∨
      ∃ word word' : Bytes, Bytes.lower word = Bytes.lower word' ∧
        diagnostic.message = (Cause.unknownDirective (Utf8.decode word)).message ∧
          other.message = (Cause.unknownDirective (Utf8.decode word')).message

namespace Token

variable {tokens others : List Token}

theorem readsLike_of_lower {token other : Token} (same : token.lower = other.lower) :
    token.ReadsLike other := by
  obtain ⟨kind, text⟩ := Token.mk.inj same
  exact ⟨kind, fun _ => text⟩

theorem pair_lower (token : Token) : token.lower.pair = token.pair := by
  simp [pair, lower, length, Bytes.lower]

theorem startAt_map_lower (tokens : List Token) (index : Nat) :
    startAt (tokens.map lower) index = startAt tokens index := by
  rw [startAt, startAt, ← List.map_take]
  induction tokens.take index with
  | nil => rfl
  | cons token rest ih =>
      rw [List.map_cons, totalLength, totalLength, ih]
      simp [lower, length, Bytes.lower]

end Token

theorem Diagnostic.Twin.sameButCase {tokens others : List Token} {diagnostic other : Diagnostic}
    (same : tokens.map Token.lower = others.map Token.lower)
    (twin : Twin (fun token other => token.lower = other.lower) tokens others diagnostic other) :
    SameButCase diagnostic other := by
  obtain ⟨wording, first, last, -, -, here, there⟩ := twin
  have span : diagnostic.span = other.span := by
    rw [here, there, Token.spanAt, Token.spanAt, ← Token.startAt_map_lower, same,
      Token.startAt_map_lower, ← Token.startAt_map_lower tokens, same, Token.startAt_map_lower]
  generalize messageEq : diagnostic.message = message at wording
  generalize otherEq : other.message = message' at wording
  cases wording with
  | same => exact ⟨span, by rw [messageEq, otherEq], .inl (by rw [messageEq, otherEq])⟩
  | @unknownDirective token token' alike _ =>
      obtain ⟨-, words⟩ := Token.mk.inj alike
      refine ⟨span, ?_, .inr ⟨_, _, words, messageEq, otherEq⟩⟩
      rw [messageEq, otherEq, Cause.toLower_unknownDirective, Cause.toLower_unknownDirective,
        ← Utf8.decode_lower, words, Utf8.decode_lower]

namespace Parse

/-- Texts that agree byte by byte up to letter case have the same tree, and the same
diagnostics up to the case of the words that they quote. -/
theorem ofText_ignores_case (dialect : Dialect) {text other : Bytes}
    (same : Bytes.lower text = Bytes.lower other) :
    (ofText dialect text).root = (ofText dialect other).root ∧
      Forall₂ Diagnostic.SameButCase (ofText dialect text).diagnostics
        (ofText dialect other).diagnostics := by
  have tokens : (Scan.scan dialect text).map Token.lower =
      (Scan.scan dialect other).map Token.lower := by
    rw [Scan.scan, Scan.scan, ← Scan.scanFrom_lower, ← Scan.scanFrom_lower, same]
  have pairwise : Forall₂ (fun token other => token.lower = other.lower)
      (Scan.scan dialect text) (Scan.scan dialect other) := by
    rw [← List.forall₂_eq_eq_eq, List.forall₂_map_left_iff, List.forall₂_map_right_iff] at tokens
    exact tokens
  rcases ofText_cases dialect text with ⟨fits, read⟩ | ⟨tooLong, refused⟩
  case inr =>
    have length : text.length = other.length := by
      rw [← Bytes.length_lower, same, Bytes.length_lower]
    rw [refused, ofText_of_lt (length ▸ tooLong), length]
    exact ⟨rfl, .cons ⟨rfl, rfl, .inl rfl⟩ .nil⟩
  have otherFits : other.length ≤ maxTextLength := by
    rwa [← Bytes.length_lower, ← same, Bytes.length_lower]
  rw [read, ofText_of_le otherFits]
  have twins := twins_entire (fun _ _ same => Token.readsLike_of_lower same) dialect pairwise
  refine ⟨Tree.eq_of_bare_of_leaves twins.shape ?_,
    twins.diagnostics.imp fun _ _ twin => twin.sameButCase tokens⟩
  have pairs (tokens : List Token) : (tokens.map Token.lower).map Token.pair =
      tokens.map Token.pair := by
    rw [List.map_map]
    exact List.map_congr_left fun token _ => token.pair_lower
  rw [leaves_entire, leaves_entire, ← pairs, tokens, pairs]

/-- Spellings of a label, a mnemonic, a number, a comment and an unknown directive; the
directive is quoted as it is written. -/
theorem ofText_ignores_case_of_spellings :
    Bytes.lower (Bytes.ascii "Loop: LDA #$AB ; Note\n .BoGus 1\n") =
        Bytes.lower (Bytes.ascii "lOOP: lda #$aB ; nOTE\n .bOgUs 1\n") ∧
      (ofText .stock (Bytes.ascii "Loop: LDA #$AB ; Note\n .BoGus 1\n")).root =
          (ofText .stock (Bytes.ascii "lOOP: lda #$aB ; nOTE\n .bOgUs 1\n")).root ∧
        Forall₂ Diagnostic.SameButCase
            (ofText .stock (Bytes.ascii "Loop: LDA #$AB ; Note\n .BoGus 1\n")).diagnostics
            (ofText .stock (Bytes.ascii "lOOP: lda #$aB ; nOTE\n .bOgUs 1\n")).diagnostics ∧
          (ofText .stock (Bytes.ascii "Loop: LDA #$AB ; Note\n .BoGus 1\n")).diagnostics ≠
            (ofText .stock (Bytes.ascii "lOOP: lda #$aB ; nOTE\n .bOgUs 1\n")).diagnostics := by
  have same : Bytes.lower (Bytes.ascii "Loop: LDA #$AB ; Note\n .BoGus 1\n") =
      Bytes.lower (Bytes.ascii "lOOP: lda #$aB ; nOTE\n .bOgUs 1\n") := by decide +kernel
  have blind := ofText_ignores_case .stock same
  exact ⟨same, blind.1, blind.2, by decide +kernel⟩

end Parse
end Asm6502
