import Asm6502.Token.Scan

/-!
# Scanners by the first byte

The first byte of a token chooses the scanner that reads the rest of it.  The scanners
that are chosen are listed once; what holds of each of them holds of every token.
-/

namespace Asm6502

namespace Byte

theorem toNat_char (byte : UInt8) : (char byte).toNat = byte.toNat := by
  have small : byte.toNat < 256 := byte.toNat_lt
  have valid : byte.toNat.isValidChar := Or.inl (by omega)
  rw [char, Char.ofNat, dif_pos valid]
  rfl

theorem char_injective {first second : UInt8}
    (same : char first = char second) : first = second := by
  apply UInt8.toNat_inj.mp
  rw [← toNat_char, same, toNat_char]

theorem eq_of_char {byte : UInt8} {char : Char} (same : Byte.char byte = char) :
    byte = UInt8.ofNat char.toNat := by
  rw [← same, toNat_char, UInt8.ofNat_toNat]

end Byte

namespace Scan

/-- The characters that have a scanner of their own, besides tokens of one byte. -/
def marks : List Char :=
  ['\n', '\r', ' ', '\t', '\x0b', '\x0c', ';', '\\', ':', '&', '|', '<', '>', '$', '%', '\'',
    '"', '@', '.']

/-- A byte that is no token by itself and has no scanner of its own. -/
structure IsPlain (first : UInt8) : Prop where
  single : single? (Byte.char first) = none
  unmarked : Byte.char first ∉ marks

/-- The scanner that a first byte chooses for the bytes behind it. -/
inductive Chooses (dialect : Dialect) (atLineStart : Bool) (first : UInt8) :
    (Bytes → Kind × Nat) → Prop
  | single {kind : Kind} (found : single? (Byte.char first) = some kind) :
      Chooses dialect atLineStart first fun _ => (kind, 0)
  | newline (begins : Byte.char first = '\n') :
      Chooses dialect atLineStart first fun _ => (.eol, 0)
  | carriageReturn (begins : Byte.char first = '\r') :
      Chooses dialect atLineStart first fun rest =>
        if rest.head? == some Byte.newline then (.eol, 1) else (.whitespace, blankRun rest)
  | blank (begins : Byte.char first ∈ [' ', '\t', '\x0b', '\x0c']) :
      Chooses dialect atLineStart first fun rest => (.whitespace, blankRun rest)
  | comment (begins : Byte.char first = ';') :
      Chooses dialect atLineStart first fun rest => (.comment, Bytes.lineLength rest)
  | backslash (begins : Byte.char first = '\\') :
      Chooses dialect atLineStart first fun rest =>
        if Bytes.atLineEnd rest then (.lineContinuation, lineEndLength rest) else stray rest
  | colon (begins : Byte.char first = ':') :
      Chooses dialect atLineStart first (colon atLineStart)
  | operator {alone : Kind}
      (begins : (Byte.char first, alone) ∈ [('&', .amp), ('|', .pipe), ('<', .lt), ('>', .gt)]) :
      Chooses dialect atLineStart first (operator (Byte.char first) alone)
  | hexNumber (begins : Byte.char first = '$') :
      Chooses dialect atLineStart first fun rest =>
        if nextIs Byte.isHexDigit rest then (.number, run Byte.isHexDigit rest)
        else stray rest
  | binaryNumber (begins : Byte.char first = '%') :
      Chooses dialect atLineStart first fun rest =>
        if nextIs Byte.isBinaryDigit rest then (.number, run Byte.isBinaryDigit rest)
        else stray rest
  | character (begins : Byte.char first = '\'') :
      Chooses dialect atLineStart first character
  | stringLiteral (begins : Byte.char first = '"') :
      Chooses dialect atLineStart first stringLiteral
  | localIdent (begins : Byte.char first = '@') :
      Chooses dialect atLineStart first fun rest =>
        if nextIs Byte.startsWord rest then (.localIdent, run Byte.continuesWord rest)
        else stray rest
  | dottedWord (begins : Byte.char first = '.') :
      Chooses dialect atLineStart first fun rest =>
        if nextIs Byte.startsWord rest then
          (dottedWord dialect (first :: rest.take (run Byte.continuesWord rest)),
            run Byte.continuesWord rest)
        else stray rest
  | number (plain : IsPlain first) (isDigit : Byte.isDigit first = true) :
      Chooses dialect atLineStart first fun rest => (.number, run Byte.continuesWord rest)
  | plainWord (plain : IsPlain first) (starts : Byte.startsWord first = true) :
      Chooses dialect atLineStart first fun rest =>
        (plainWord dialect (first :: rest.take (run Byte.continuesWord rest)),
          run Byte.continuesWord rest)
  | stray (plain : IsPlain first) (notWord : Byte.continuesWord first = false) :
      Chooses dialect atLineStart first stray

/-- A plain byte begins a number, a word or a stray token. -/
theorem IsPlain.classify_eq {first : UInt8} (plain : IsPlain first) (dialect : Dialect)
    (atLineStart : Bool) :
    classify dialect atLineStart first = fun rest =>
      if Byte.isDigit first then (.number, run Byte.continuesWord rest)
      else if Byte.startsWord first then
        (plainWord dialect (first :: rest.take (run Byte.continuesWord rest)),
          run Byte.continuesWord rest)
      else stray rest := by
  have unmarked := plain.unmarked
  funext rest
  rw [classify, plain.single]
  dsimp only
  generalize Byte.char first = char at unmarked
  split
  case h_20 => rfl
  all_goals exact absurd (by decide) unmarked

theorem chooses_of_marked {first : UInt8} (marked : Byte.char first ∈ marks)
    (dialect : Dialect) (atLineStart : Bool) :
    Chooses dialect atLineStart first (classify dialect atLineStart first) := by
  simp only [marks, List.mem_cons, List.not_mem_nil, or_false] at marked
  rcases marked with isChar | isChar | isChar | isChar | isChar | isChar | isChar | isChar |
    isChar | isChar | isChar | isChar | isChar | isChar | isChar | isChar | isChar | isChar |
    isChar
  all_goals obtain rfl := Byte.eq_of_char isChar
  · exact .newline isChar
  · exact .carriageReturn isChar
  · exact .blank (by decide)
  · exact .blank (by decide)
  · exact .blank (by decide)
  · exact .blank (by decide)
  · exact .comment isChar
  · exact .backslash isChar
  · exact .colon isChar
  · exact .operator (by decide)
  · exact .operator (by decide)
  · exact .operator (by decide)
  · exact .operator (by decide)
  · exact .hexNumber isChar
  · exact .binaryNumber isChar
  · exact .character isChar
  · exact .stringLiteral isChar
  · exact .localIdent isChar
  · exact .dottedWord isChar

theorem chooses_classify (dialect : Dialect) (atLineStart : Bool) (first : UInt8) :
    Chooses dialect atLineStart first (classify dialect atLineStart first) := by
  cases single : single? (Byte.char first) with
  | some kind =>
      have same : classify dialect atLineStart first = fun _ => (kind, 0) := by
        funext rest
        rw [classify, single]
      exact same ▸ .single single
  | none =>
      by_cases marked : Byte.char first ∈ marks
      · exact chooses_of_marked marked dialect atLineStart
      · have plain : IsPlain first := ⟨single, marked⟩
        rw [plain.classify_eq]
        cases digit : Byte.isDigit first with
        | true => exact .number plain digit
        | false =>
            cases starts : Byte.startsWord first with
            | true => exact .plainWord plain starts
            | false => exact .stray plain (by rw [Byte.continuesWord, starts, digit]; rfl)

theorem run_le (holds : UInt8 → Bool) (rest : Bytes) : run holds rest ≤ rest.length :=
  (List.takeWhile_prefix _).length_le

theorem blankRun_le (rest : Bytes) : blankRun rest ≤ rest.length := by
  induction rest with
  | nil => exact Nat.le_refl _
  | cons byte rest ih =>
      rw [blankRun, List.length_cons]
      split
      · exact Nat.succ_le_succ ih
      · exact Nat.zero_le _

theorem strayRun_le (rest : Bytes) : strayRun rest ≤ rest.length := by
  induction rest with
  | nil => exact Nat.le_refl _
  | cons byte rest ih =>
      rw [strayRun, List.length_cons]
      split
      · exact Nat.zero_le _
      · exact Nat.succ_le_succ ih

theorem lineLength_le (rest : Bytes) : Bytes.lineLength rest ≤ rest.length := by
  induction rest with
  | nil => exact Nat.le_refl _
  | cons byte rest ih =>
      rw [Bytes.lineLength, List.length_cons]
      split
      · exact Nat.zero_le _
      · exact Nat.succ_le_succ ih

theorem closing?_le {quote : UInt8} {rest : Bytes} {count : Nat}
    (found : closing? quote rest = some count) : count ≤ rest.length := by
  induction rest generalizing count with
  | nil => contradiction
  | cons byte rest ih =>
      rw [closing?] at found
      rw [List.length_cons]
      split at found
      · contradiction
      · split at found
        · obtain rfl := Option.some.inj found
          exact Nat.succ_le_succ (Nat.zero_le _)
        · obtain ⟨later, behind, rfl⟩ := Option.map_eq_some_iff.mp found
          exact Nat.succ_le_succ (ih behind)

theorem lineEndLength_le (rest : Bytes) : lineEndLength rest ≤ rest.length := by
  unfold lineEndLength
  split <;> simp

theorem operator_le (first : Char) (alone : Kind) (rest : Bytes) :
    (operator first alone rest).2 ≤ rest.length := by
  cases rest with
  | nil => exact Nat.le_refl _
  | cons next rest =>
      unfold operator
      split
      · exact Nat.succ_le_succ (Nat.zero_le _)
      · exact Nat.zero_le _

theorem colon_le (atLineStart : Bool) (rest : Bytes) :
    (colon atLineStart rest).2 ≤ rest.length := by
  unfold colon
  split
  · exact Nat.zero_le _
  · split
    · exact Nat.zero_le _
    · split
      · exact Nat.succ_le_succ (Nat.zero_le _)
      · exact Nat.succ_le_succ (Nat.zero_le _)
      · exact run_le _ _
      · exact run_le _ _
      · exact Nat.zero_le _

theorem character_le (rest : Bytes) : (character rest).2 ≤ rest.length := by
  unfold character
  split
  · split
    · exact Nat.zero_le _
    · exact Nat.succ_le_succ (Nat.succ_le_succ (Nat.zero_le _))
  · cases found : closing? 0x27 rest with
    | some count => exact closing?_le found
    | none => exact lineLength_le rest

theorem stringLiteral_le (rest : Bytes) : (stringLiteral rest).2 ≤ rest.length := by
  unfold stringLiteral
  cases found : closing? 0x22 rest with
  | some count => exact closing?_le found
  | none => exact lineLength_le rest

variable {dialect : Dialect} {atLineStart : Bool} {first : UInt8} {scanner : Bytes → Kind × Nat}

theorem guarded_le {holds : UInt8 → Bool} {scanned : Kind × Nat} {rest : Bytes}
    (inside : scanned.2 ≤ rest.length) :
    (if nextIs holds rest then scanned else stray rest).2 ≤ rest.length := by
  split
  · exact inside
  · exact strayRun_le rest

theorem Chooses.length_le (chosen : Chooses dialect atLineStart first scanner) (rest : Bytes) :
    (scanner rest).2 ≤ rest.length := by
  cases chosen with
  | single | newline => exact Nat.zero_le _
  | carriageReturn =>
      dsimp only
      split
      · next isNewline =>
          cases rest with
          | nil => contradiction
          | cons => exact Nat.succ_le_succ (Nat.zero_le _)
      · exact blankRun_le rest
  | blank => exact blankRun_le rest
  | comment => exact lineLength_le rest
  | backslash =>
      dsimp only
      split
      · exact lineEndLength_le rest
      · exact strayRun_le rest
  | colon => exact colon_le atLineStart rest
  | operator => exact operator_le _ _ rest
  | character => exact character_le rest
  | stringLiteral => exact stringLiteral_le rest
  | hexNumber | binaryNumber | localIdent | dottedWord => exact guarded_le (run_le _ rest)
  | number | plainWord => exact run_le _ rest
  | stray => exact strayRun_le rest

theorem classify_le (dialect : Dialect) (atLineStart : Bool) (first : UInt8) (rest : Bytes) :
    (classify dialect atLineStart first rest).2 ≤ rest.length :=
  (chooses_classify dialect atLineStart first).length_le rest

end Scan
end Asm6502
