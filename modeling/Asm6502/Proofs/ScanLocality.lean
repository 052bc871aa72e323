import Asm6502.Proofs.FirstBytes

/-!
# Scanning is local to lines

No token reaches past a newline that stands after its first byte, so what
follows the newline has no influence on it.  A text that ends with a newline is
therefore scanned the same whatever comes behind it.
-/

namespace Asm6502

namespace Bytes

theorem atLineEnd_cons (byte : UInt8) (rest : Bytes) :
    atLineEnd (byte :: rest) =
      (byte == 0x0a || byte == 0x0d && rest.head?.any (· == 0x0a)) := by
  unfold atLineEnd
  split
  · next same =>
      obtain ⟨rfl, rfl⟩ := List.cons.inj same
      rfl
  · next same =>
      obtain ⟨rfl, rfl⟩ := List.cons.inj same
      rfl
  · next notNewline notReturn =>
      have byteNe : (byte == 0x0a) = false := by
        simpa using fun same => notNewline rest (by rw [same])
      rw [byteNe, Bool.false_or]
      cases rest with
      | nil => simp
      | cons next rest =>
          symm
          simp only [List.head?_cons, Option.any_some, Bool.and_eq_false_iff, beq_eq_false_iff_ne]
          by_cases isReturn : byte = 0x0d
          · right
            rintro rfl
            exact notReturn rest (by rw [isReturn])
          · exact .inl isReturn

theorem atLineEnd_append {rest : Bytes} (ends : Byte.newline ∈ rest)
    (more : Bytes) : atLineEnd (rest ++ more) = atLineEnd rest := by
  match rest, ends with
  | [byte], ends =>
      obtain rfl : Byte.newline = byte := by simpa using ends
      rfl
  | first :: second :: rest, _ =>
      simp only [List.cons_append]
      unfold atLineEnd
      split <;> simp_all

theorem lineLength_append {rest : Bytes} (ends : Byte.newline ∈ rest)
    (more : Bytes) : lineLength (rest ++ more) = lineLength rest := by
  induction rest with
  | nil => simp at ends
  | cons byte rest ih =>
      have sameEnd := atLineEnd_append ends more
      rw [List.cons_append] at sameEnd ⊢
      simp only [lineLength, sameEnd]
      cases ended : atLineEnd (byte :: rest) with
      | true => rfl
      | false =>
          have later : Byte.newline ∈ rest := by
            rcases List.mem_cons.mp ends with rfl | later
            · simp [atLineEnd, Byte.newline] at ended
            · exact later
          rw [ih later]

end Bytes

namespace Scan

theorem character_eq (rest : Bytes) :
    character rest =
      if (rest.drop 1).head?.any (· == 0x27) then
        if Bytes.atLineEnd rest then (.errorToken, 0) else (.char, 2)
      else (.errorToken, (closing? 0x27 rest).getD (Bytes.lineLength rest)) := by
  match rest with
  | [] => rfl
  | [_] => rfl
  | first :: second :: rest =>
      by_cases quoted : second = 0x27
      · subst quoted
        rfl
      · unfold character
        split
        · next same => exact absurd (List.cons.inj (List.cons.inj same).2).1 quoted
        · simp [quoted]

theorem character_of_newline (rest : Bytes) : character (0x0a :: rest) = (.errorToken, 0) := by
  rw [character_eq]
  split <;> rfl

section Runs

variable {rest : Bytes} (ends : Byte.newline ∈ rest) (more : Bytes)
include ends

theorem run_append (holds : UInt8 → Bool)
    (stops : holds Byte.newline = false) :
    run holds (rest ++ more) = run holds rest := by
  induction rest with
  | nil => simp at ends
  | cons byte rest ih =>
      simp only [run, List.cons_append, List.takeWhile_cons] at ih ⊢
      cases held : holds byte with
      | false => rfl
      | true =>
          have later : Byte.newline ∈ rest := by
            rcases List.mem_cons.mp ends with rfl | later
            · rw [stops] at held
              contradiction
            · exact later
          simpa using ih later

theorem blankRun_append : blankRun (rest ++ more) = blankRun rest := by
  induction rest with
  | nil => simp at ends
  | cons byte rest ih =>
      have sameEnd := Bytes.atLineEnd_append ends more
      rw [List.cons_append] at sameEnd ⊢
      simp only [blankRun, sameEnd]
      split
      · next goesOn =>
          have later : Byte.newline ∈ rest := by
            rcases List.mem_cons.mp ends with rfl | later
            · simp [Byte.isBlank, Byte.newline] at goesOn
            · exact later
          rw [ih later]
      · rfl

theorem closing?_append (quote : UInt8) :
    closing? quote (rest ++ more) = closing? quote rest := by
  induction rest with
  | nil => simp at ends
  | cons byte rest ih =>
      have sameEnd := Bytes.atLineEnd_append ends more
      rw [List.cons_append] at sameEnd ⊢
      simp only [closing?, sameEnd]
      cases ended : Bytes.atLineEnd (byte :: rest) with
      | true => rfl
      | false =>
          have later : Byte.newline ∈ rest := by
            rcases List.mem_cons.mp ends with rfl | later
            · simp [Bytes.atLineEnd, Byte.newline] at ended
            · exact later
          rw [ih later]

theorem startsToken_append (byte : UInt8) :
    startsToken byte (rest ++ more) = startsToken byte rest := by
  cases rest with
  | nil => simp at ends
  | cons next rest => simp only [startsToken, nextIs, List.cons_append, List.head?_cons]

theorem strayRun_append : strayRun (rest ++ more) = strayRun rest := by
  induction rest with
  | nil => simp at ends
  | cons byte rest ih =>
      simp only [List.cons_append, strayRun]
      by_cases last : Byte.newline ∈ rest
      · rw [startsToken_append last, ih last]
      · obtain rfl : Byte.newline = byte := by
          rcases List.mem_cons.mp ends with same | later
          · exact same
          · exact absurd later last
        simp [startsToken, Byte.char, Byte.newline]

theorem nextIs_append (holds : UInt8 → Bool) :
    nextIs holds (rest ++ more) = nextIs holds rest := by
  cases rest with
  | nil => simp at ends
  | cons next rest => simp [nextIs]

theorem head?_append_of_newline : (rest ++ more).head? = rest.head? := by
  cases rest with
  | nil => simp at ends
  | cons next rest => simp

theorem lineEndLength_append : lineEndLength (rest ++ more) = lineEndLength rest := by
  match rest, ends with
  | [byte], ends =>
      obtain rfl : Byte.newline = byte := by simpa using ends
      rfl
  | first :: second :: rest, _ =>
      simp only [List.cons_append]
      unfold lineEndLength
      split <;> simp_all

omit ends in
/-- The scanner of one token gives the same with more text behind, and stays
within the text that was there before. -/
def IsLocal (rest more : Bytes) (scanner : Bytes → Kind × Nat) : Prop :=
  scanner (rest ++ more) = scanner rest ∧ (scanner rest).2 ≤ rest.length

theorem operator_isLocal (first : Char) (alone : Kind) :
    IsLocal rest more (operator first alone) := by
  refine ⟨?_, operator_le first alone rest⟩
  rw [operator, operator, head?_append_of_newline ends]

theorem colon_isLocal (atLineStart : Bool) :
    IsLocal rest more (colon atLineStart) := by
  refine ⟨?_, colon_le atLineStart rest⟩
  cases atLineStart with
  | true => rfl
  | false =>
      cases rest with
      | nil => simp at ends
      | cons next rest =>
          by_cases isNewline : next = Byte.newline
          · subst next
            rfl
          · have stops : (Byte.newline == next) = false := by
              simpa using Ne.symm isNewline
            have same := run_append ends more (· == next) stops
            simp only [colon, List.cons_append] at same ⊢
            rw [same]

theorem character_isLocal : IsLocal rest more character := by
  refine ⟨?_, character_le rest⟩
  match rest, ends with
  | [byte], ends =>
      obtain rfl : Byte.newline = byte := by simpa using ends
      exact (character_of_newline _).trans (character_of_newline _).symm
  | first :: second :: rest, ends =>
      rw [character_eq, character_eq, Bytes.atLineEnd_append ends, closing?_append ends,
        Bytes.lineLength_append ends]
      rfl

theorem stringLiteral_isLocal : IsLocal rest more stringLiteral := by
  refine ⟨?_, stringLiteral_le rest⟩
  rw [stringLiteral, stringLiteral, closing?_append ends, Bytes.lineLength_append ends]

theorem stray_isLocal : IsLocal rest more stray :=
  ⟨congrArg (Prod.mk _) (strayRun_append ends more), strayRun_le rest⟩

theorem blank_isLocal : IsLocal rest more fun rest => (.whitespace, blankRun rest) :=
  ⟨congrArg (Prod.mk _) (blankRun_append ends more), blankRun_le rest⟩

theorem comment_isLocal : IsLocal rest more fun rest => (.comment, Bytes.lineLength rest) :=
  ⟨congrArg (Prod.mk _) (Bytes.lineLength_append ends more), lineLength_le rest⟩

theorem word_isLocal {holds : UInt8 → Bool} (stops : holds Byte.newline = false)
    (kind : Bytes → Kind) :
    IsLocal rest more fun rest => (kind (rest.take (run holds rest)), run holds rest) := by
  refine ⟨?_, run_le holds rest⟩
  simp only [run_append ends more holds stops, List.take_append_of_le_length (run_le holds rest)]

variable {scanner : Bytes → Kind × Nat}

theorem guarded_isLocal (holds : UInt8 → Bool) (inside : IsLocal rest more scanner) :
    IsLocal rest more fun rest => if nextIs holds rest then scanner rest else stray rest := by
  refine ⟨?_, guarded_le inside.2⟩
  simp only [nextIs_append ends, inside.1, (stray_isLocal ends more).1]

variable {dialect : Dialect} {atLineStart : Bool} {first : UInt8}

theorem Chooses.isLocal (chosen : Chooses dialect atLineStart first scanner) :
    IsLocal rest more scanner := by
  have inside := chosen.length_le rest
  cases chosen with
  | single | newline => exact ⟨rfl, inside⟩
  | carriageReturn =>
      refine ⟨?_, inside⟩
      simp only [head?_append_of_newline ends, blankRun_append ends]
  | blank => exact blank_isLocal ends more
  | comment => exact comment_isLocal ends more
  | backslash =>
      refine ⟨?_, inside⟩
      simp only [Bytes.atLineEnd_append ends, lineEndLength_append ends,
        (stray_isLocal ends more).1]
  | colon => exact colon_isLocal ends more atLineStart
  | operator => exact operator_isLocal ends more _ _
  | hexNumber | binaryNumber =>
      exact guarded_isLocal ends more _ (word_isLocal ends more rfl fun _ => .number)
  | character => exact character_isLocal ends more
  | stringLiteral => exact stringLiteral_isLocal ends more
  | localIdent =>
      exact guarded_isLocal ends more _ (word_isLocal ends more rfl fun _ => .localIdent)
  | dottedWord =>
      exact guarded_isLocal ends more _
        (word_isLocal ends more rfl fun word => Scan.dottedWord dialect (first :: word))
  | number => exact word_isLocal ends more rfl fun _ => .number
  | plainWord =>
      exact word_isLocal ends more rfl fun word => Scan.plainWord dialect (first :: word)
  | stray => exact stray_isLocal ends more

theorem classify_isLocal (dialect : Dialect) (atLineStart : Bool)
    (first : UInt8) :
    IsLocal rest more (classify dialect atLineStart first) :=
  (chooses_classify dialect atLineStart first).isLocal ends more

end Runs

theorem scanFrom_skip (dialect : Dialect) (atLineStart : Bool) (skip : Nat)
    (text : Bytes) :
    scanFrom dialect atLineStart skip text =
      scanFrom dialect atLineStart 0 (text.drop skip) := by
  induction text generalizing skip with
  | nil => simp [scanFrom]
  | cons first rest ih =>
      cases skip with
      | zero => rfl
      | succ skip => simpa [scanFrom] using ih skip

/-- The token at the head of a text; the scan goes on behind it. -/
def firstToken (dialect : Dialect) (atLineStart : Bool) (first : UInt8)
    (rest : Bytes) : Token :=
  ⟨(classify dialect atLineStart first rest).1,
    first :: rest.take (classify dialect atLineStart first rest).2⟩

theorem scanFrom_cons (dialect : Dialect) (atLineStart : Bool) (first : UInt8)
    (rest : Bytes) :
    scanFrom dialect atLineStart 0 (first :: rest) =
      firstToken dialect atLineStart first rest ::
        scanFrom dialect
          (lineStartAfter atLineStart
            (firstToken dialect atLineStart first rest).kind) 0
          (rest.drop (classify dialect atLineStart first rest).2) := by
  rw [← scanFrom_skip]
  rfl

theorem length_drop_lt (first : UInt8) (rest : Bytes) (count : Nat) :
    (rest.drop count).length < (first :: rest).length := by
  rw [List.length_drop, List.length_cons]
  omega

theorem scanInduct (dialect : Dialect) {motive : Bool → Bytes → Prop}
    (nil : ∀ atLineStart, motive atLineStart [])
    (cons : ∀ atLineStart first rest,
      motive (lineStartAfter atLineStart (firstToken dialect atLineStart first rest).kind)
          (rest.drop (classify dialect atLineStart first rest).2) →
        motive atLineStart (first :: rest))
    (atLineStart : Bool) (text : Bytes) : motive atLineStart text := by
  induction lengthEq : text.length using Nat.strongRecOn generalizing atLineStart text with
  | ind length ih =>
      cases text with
      | nil => exact nil atLineStart
      | cons first rest =>
          refine cons atLineStart first rest ?_
          exact ih _ (lengthEq ▸ length_drop_lt first rest _) _ _ rfl

/-- The tokens of a text tile it. -/
theorem flatMap_text_scanFrom (dialect : Dialect) (atLineStart : Bool)
    (text : Bytes) :
    (scanFrom dialect atLineStart 0 text).flatMap Token.text = text := by
  induction atLineStart, text using scanInduct dialect with
  | nil => rfl
  | cons atLineStart first rest ih =>
      rw [scanFrom_cons, List.flatMap_cons, ih]
      simp [firstToken]

/-- The line-start state behind some tokens. -/
def stateBehind (atLineStart : Bool) (tokens : List Token) : Bool :=
  tokens.foldl (fun state token => lineStartAfter state token.kind) atLineStart

/-- A text that is empty or ends with a newline is scanned the same whatever
comes behind it. -/
theorem scanFrom_append (dialect : Dialect) (atLineStart : Bool)
    (text more : Bytes)
    (ends : ∀ byte, text.getLast? = some byte → byte = Byte.newline) :
    scanFrom dialect atLineStart 0 (text ++ more) =
      scanFrom dialect atLineStart 0 text ++
        scanFrom dialect
          (stateBehind atLineStart (scanFrom dialect atLineStart 0 text)) 0
          more := by
  induction atLineStart, text using scanInduct dialect with
  | nil => rfl
  | cons atLineStart first rest ih =>
      have sameToken :
          classify dialect atLineStart first (rest ++ more) =
            classify dialect atLineStart first rest ∧
          (classify dialect atLineStart first rest).2 ≤ rest.length := by
        -- A newline is a token by itself, and one behind the token settles it.
        cases rest with
        | nil =>
            obtain rfl := ends first rfl
            exact ⟨rfl, Nat.zero_le _⟩
        | cons second rest =>
            have newlineMem : Byte.newline ∈ second :: rest := by
              have last := List.getLast?_eq_some_getLast
                (l := second :: rest) (by simp)
              have isNewline := ends _ (by
                rw [List.getLast?_cons_cons]
                exact last)
              rw [← isNewline]
              exact List.getLast_mem _
            exact classify_isLocal newlineMem more dialect atLineStart first
      obtain ⟨same, bounded⟩ := sameToken
      have firstSame : firstToken dialect atLineStart first (rest ++ more) =
          firstToken dialect atLineStart first rest := by
        simp only [firstToken, same, List.take_append_of_le_length bounded]
      rw [List.cons_append, scanFrom_cons, scanFrom_cons, firstSame, same,
        List.drop_append_of_le_length bounded, ih]
      · simp [stateBehind]
      · intro byte isLast
        apply ends byte
        rw [List.getLast?_drop] at isLast
        split at isLast
        · contradiction
        · rw [List.getLast?_cons]
          simp [isLast]

end Scan
end Asm6502
