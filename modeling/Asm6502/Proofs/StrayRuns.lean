import Asm6502.Proofs.ScannedKinds
import Asm6502.Proofs.TokenLines

/-!
# Runs of unrecognised bytes

A stray token is an error that no quote begins: bytes that no token starts with, glued
into one run.  What ends a run is decided by a predicate of its own, which looks one byte
ahead.  It agrees with the alternatives of the scanner but for a backslash before a lone
carriage return: there the run ends, and yet the backslash is stray.  So two stray tokens
meet only where the second one is such a backslash.
-/

namespace Asm6502

namespace Byte

def backslash : UInt8 := 0x5c

/-- A quote begins a character or a string, complete or not. -/
def isQuote (byte : UInt8) : Bool :=
  byte == 0x27 || byte == 0x22

end Byte

namespace Bytes

/-- A carriage return here, and no newline behind it. -/
def LoneReturn (rest : Bytes) : Prop :=
  ∃ behind, rest = Byte.carriageReturn :: behind ∧ behind.head? ≠ some Byte.newline

end Bytes

namespace Token

/-- An error that no quote begins. -/
def IsStray (token : Token) : Prop :=
  token.kind = .errorToken ∧ ∀ byte, token.text.head? = some byte → Byte.isQuote byte = false

instance (token : Token) : Decidable token.IsStray :=
  match text : token.text.head? with
  | none => decidable_of_iff (token.kind = .errorToken) (by simp [IsStray, text])
  | some byte =>
      decidable_of_iff (token.kind = .errorToken ∧ Byte.isQuote byte = false)
        (by simp [IsStray, text])

end Token

namespace Scan

variable {dialect : Dialect} {atLineStart : Bool} {first : UInt8} {rest : Bytes}

theorem startsToken_of_single? {kind : Kind} (found : single? (Byte.char first) = some kind)
    (rest : Bytes) : startsToken first rest = true := by
  unfold single? at found
  split at found
  case h_17 => contradiction
  all_goals
    rename_i isChar
    obtain rfl := Byte.eq_of_char isChar
    rfl

theorem kind_ne_errorToken (dialect : Dialect) (atLineStart : Bool) (rest : Bytes)
    (proper : .errorToken ∉ kindsFrom (Byte.char first)) :
    (classify dialect atLineStart first rest).1 ≠ .errorToken :=
  ne_of_mem_of_not_mem (classify_mem dialect atLineStart first rest) proper

theorem punctuation_table : ∀ byte : Fin 256, isPunctuation (UInt8.ofNat byte) = true →
    (single? (Byte.char (UInt8.ofNat byte))).isSome ∨
      Byte.char (UInt8.ofNat byte) ∈ [':', '&', '|', '<', '>'] := by
  decide +kernel

theorem isPunctuation_cases (punctuation : isPunctuation first = true) :
    (single? (Byte.char first)).isSome ∨ Byte.char first ∈ [':', '&', '|', '<', '>'] := by
  have row := punctuation_table ⟨first.toNat, first.toNat_lt⟩
  rw [UInt8.ofNat_toNat] at row
  exact row punctuation

theorem isBlank_cases (blank : Byte.isBlank first = true) :
    Byte.char first ∈ [' ', '\t', '\x0b', '\x0c', '\r'] := by
  simp only [Byte.isBlank, Bool.or_eq_true, beq_iff_eq] at blank
  rcases blank with (((rfl | rfl) | rfl) | rfl) | rfl
  all_goals decide

/-- What stands at the head of a text: a token of its own, a quote, a stray run, or a
backslash that ends a stray run and begins the next one. -/
inductive Beginning (dialect : Dialect) (atLineStart : Bool) (first : UInt8) (rest : Bytes) :
    Prop
  | token (starts : startsToken first rest = true)
      (recognised : (classify dialect atLineStart first rest).1 ≠ .errorToken)
  | quote (starts : startsToken first rest = true) (isQuote : Byte.isQuote first = true)
  | stray (goesOn : startsToken first rest = false)
      (isStray : classify dialect atLineStart first rest = Scan.stray rest)
  | backslash (isBackslash : first = Byte.backslash) (loneReturn : Bytes.LoneReturn rest)

theorem beginning_guarded {holds : UInt8 → Bool} {scanned : Kind × Nat}
    (starts : startsToken first rest = nextIs holds rest)
    (classified : classify dialect atLineStart first rest =
      if nextIs holds rest then scanned else stray rest)
    (recognised : scanned.1 ≠ .errorToken) : Beginning dialect atLineStart first rest := by
  cases goesOn : nextIs holds rest with
  | true =>
      rw [goesOn, if_pos rfl] at classified
      exact .token (starts.trans goesOn) (classified ▸ recognised)
  | false =>
      rw [goesOn, if_neg Bool.false_ne_true] at classified
      exact .stray (starts.trans goesOn) classified

theorem beginning_backslash (dialect : Dialect) (atLineStart : Bool) (rest : Bytes) :
    Beginning dialect atLineStart Byte.backslash rest := by
  have classified : classify dialect atLineStart Byte.backslash rest =
      if Bytes.atLineEnd rest then (.lineContinuation, lineEndLength rest) else stray rest := rfl
  have starts : startsToken Byte.backslash rest =
      nextIs (fun next => next == Byte.newline || next == Byte.carriageReturn) rest := rfl
  cases rest with
  | nil => exact .stray rfl classified
  | cons next behind =>
      rw [Bytes.atLineEnd_cons] at classified
      by_cases isNewline : next = Byte.newline
      · subst isNewline
        exact .token rfl (classified ▸ Kind.noConfusion)
      · by_cases isReturn : next = Byte.carriageReturn
        · subst isReturn
          by_cases ends : behind.head? = some Byte.newline
          · obtain ⟨others, rfl⟩ : ∃ others, behind = Byte.newline :: others := by
              cases behind with
              | nil => contradiction
              | cons byte others => exact ⟨others, by simpa using ends⟩
            exact .token rfl (classified ▸ Kind.noConfusion)
          · exact .backslash rfl ⟨behind, rfl, ends⟩
        · have goesOn : startsToken Byte.backslash (next :: behind) = false := by
            rw [starts]
            simp [nextIs, isNewline, isReturn]
          have noEnd : (next == 0x0a || next == 0x0d && behind.head?.any (· == 0x0a)) = false := by
            have notNewline : (next == 0x0a) = false := beq_false_of_ne isNewline
            have notReturn : (next == 0x0d) = false := beq_false_of_ne isReturn
            rw [notNewline, notReturn]
            rfl
          rw [noEnd] at classified
          exact .stray goesOn classified

theorem IsPlain.startsToken_eq (plain : IsPlain first) (rest : Bytes) :
    startsToken first rest = Byte.continuesWord first := by
  have unmarked := plain.unmarked
  have notBlank : Byte.isBlank first = false := by
    refine Bool.eq_false_iff.mpr fun blank => unmarked ?_
    have areMarks : [' ', '\t', '\x0b', '\x0c', '\r'] ⊆ marks := by simp [marks]
    exact areMarks (isBlank_cases blank)
  have notPunctuation : isPunctuation first = false := by
    refine Bool.eq_false_iff.mpr fun punctuation => ?_
    rcases isPunctuation_cases punctuation with isSome | listed
    · rw [plain.single] at isSome
      contradiction
    · have areMarks : [':', '&', '|', '<', '>'] ⊆ marks := by simp [marks]
      exact unmarked (areMarks listed)
  unfold startsToken
  rw [notBlank, notPunctuation, Bool.or_false, Bool.false_or]
  generalize Byte.char first = char at unmarked
  split
  case h_10 => rfl
  all_goals exact absurd (by decide) unmarked

theorem beginning_of_char {char : Char} (begins : Byte.char first = char)
    (starts : startsToken (UInt8.ofNat char.toNat) rest = true)
    (proper : .errorToken ∉ kindsFrom char) : Beginning dialect atLineStart first rest := by
  obtain rfl := Byte.eq_of_char begins
  rw [← begins] at proper
  exact .token starts (kind_ne_errorToken dialect atLineStart rest proper)

theorem beginning (dialect : Dialect) (atLineStart : Bool) (first : UInt8) (rest : Bytes) :
    Beginning dialect atLineStart first rest := by
  have chosen := chooses_classify dialect atLineStart first
  generalize classifies : classify dialect atLineStart first = scanner at chosen
  have classified : classify dialect atLineStart first rest = scanner rest := by
    rw [classifies]
  cases chosen with
  | single found =>
      exact .token (startsToken_of_single? found rest) (classified ▸ (single?_ne found).2.2)
  | newline begins | carriageReturn begins | comment begins | colon begins =>
      exact beginning_of_char begins rfl (by decide)
  | blank begins =>
      simp only [List.mem_cons, List.not_mem_nil, or_false] at begins
      rcases begins with begins | begins | begins | begins
      all_goals exact beginning_of_char begins rfl (by decide)
  | operator begins =>
      simp only [List.mem_cons, List.not_mem_nil, or_false, Prod.mk.injEq] at begins
      rcases begins with ⟨begins, -⟩ | ⟨begins, -⟩ | ⟨begins, -⟩ | ⟨begins, -⟩
      all_goals exact beginning_of_char begins rfl (by decide)
  | backslash begins =>
      obtain rfl := Byte.eq_of_char begins
      exact beginning_backslash dialect atLineStart rest
  | character begins | stringLiteral begins =>
      obtain rfl := Byte.eq_of_char begins
      exact .quote rfl rfl
  | hexNumber begins | binaryNumber begins | localIdent begins =>
      obtain rfl := Byte.eq_of_char begins
      exact beginning_guarded rfl classified Kind.noConfusion
  | dottedWord begins =>
      obtain rfl := Byte.eq_of_char begins
      exact beginning_guarded rfl classified
        (ne_of_mem_of_not_mem (dottedWord_mem dialect _) (by decide))
  | number plain isDigit =>
      refine .token ?_ (classified ▸ Kind.noConfusion)
      rw [plain.startsToken_eq, Byte.continuesWord, isDigit, Bool.or_true]
  | plainWord plain starts =>
      refine .token ?_ (classified ▸ ne_of_mem_of_not_mem (plainWord_mem dialect _) (by decide))
      rw [plain.startsToken_eq, Byte.continuesWord, starts, Bool.true_or]
  | stray plain notWord => exact .stray ((plain.startsToken_eq rest).trans notWord) classified

theorem isStray_firstToken :
    (firstToken dialect atLineStart first rest).IsStray ↔
      (classify dialect atLineStart first rest).1 = .errorToken ∧ Byte.isQuote first = false := by
  simp [Token.IsStray, firstToken]

theorem classify_loneReturn (loneReturn : Bytes.LoneReturn rest) :
    classify dialect atLineStart Byte.backslash rest = stray rest := by
  obtain ⟨behind, rfl, notNewline⟩ := loneReturn
  have noEnd : Bytes.atLineEnd (Byte.carriageReturn :: behind) = false := by
    cases behind with
    | nil => rfl
    | cons next others =>
        have differs : next ≠ Byte.newline := fun same => notNewline (by rw [same]; rfl)
        rw [Bytes.atLineEnd_cons]
        exact beq_false_of_ne differs
  have classified : classify dialect atLineStart Byte.backslash (Byte.carriageReturn :: behind) =
      if Bytes.atLineEnd (Byte.carriageReturn :: behind) then (.lineContinuation, _)
      else stray (Byte.carriageReturn :: behind) := rfl
  rw [classified, noEnd, if_neg Bool.false_ne_true]

theorem strayRun_loneReturn (loneReturn : Bytes.LoneReturn rest) : strayRun rest = 0 := by
  obtain ⟨behind, rfl, -⟩ := loneReturn
  rfl

/-- A token is stray where a run of unrecognised bytes goes on, and in one place more. -/
theorem isStray_iff :
    (firstToken dialect atLineStart first rest).IsStray ↔
      startsToken first rest = false ∨ first = Byte.backslash ∧ Bytes.LoneReturn rest := by
  rw [isStray_firstToken]
  cases beginning dialect atLineStart first rest with
  | token starts recognised =>
      constructor
      · exact fun isStray => absurd isStray.1 recognised
      · rintro (goesOn | ⟨rfl, loneReturn⟩)
        · rw [starts] at goesOn
          contradiction
        · rw [classify_loneReturn loneReturn] at recognised
          exact absurd rfl recognised
  | quote starts isQuote =>
      constructor
      · intro isStray
        rw [isStray.2] at isQuote
        contradiction
      · rintro (goesOn | ⟨rfl, -⟩)
        · rw [starts] at goesOn
          contradiction
        · contradiction
  | stray goesOn isStray =>
      refine iff_of_true ⟨by rw [isStray]; rfl, ?_⟩ (.inl goesOn)
      refine Bool.eq_false_iff.mpr fun quote => ?_
      simp only [Byte.isQuote, Bool.or_eq_true, beq_iff_eq] at quote
      rcases quote with rfl | rfl
      all_goals contradiction
  | backslash isBackslash loneReturn =>
      subst isBackslash
      refine iff_of_true ⟨?_, rfl⟩ (.inr ⟨rfl, loneReturn⟩)
      rw [classify_loneReturn loneReturn]
      rfl

theorem classify_of_isStray
    (isStray : (firstToken dialect atLineStart first rest).IsStray) :
    classify dialect atLineStart first rest = stray rest := by
  rcases isStray_iff.mp isStray with goesOn | ⟨rfl, loneReturn⟩
  · cases beginning dialect atLineStart first rest with
    | token starts _ | quote starts _ =>
        rw [starts] at goesOn
        contradiction
    | stray _ isStray => exact isStray
    | backslash isBackslash loneReturn => rw [isBackslash, classify_loneReturn loneReturn]
  · exact classify_loneReturn loneReturn

theorem startsToken_of_drop {second : UInt8} {behind : Bytes}
    (left : rest.drop (strayRun rest) = second :: behind) : startsToken second behind = true := by
  induction rest with
  | nil => contradiction
  | cons byte rest ih =>
      cases starts : startsToken byte rest with
      | true =>
          rw [strayRun, starts, if_pos rfl] at left
          obtain ⟨rfl, rfl⟩ := List.cons.inj left
          exact starts
      | false =>
          rw [strayRun, starts, if_neg Bool.false_ne_true] at left
          exact ih left

/-- Two stray tokens meet only where the second one is a backslash before a lone carriage
return. -/
theorem eq_backslash_of_isStray {text : Bytes} {token second : Token} {after : List Token}
    (scanned : scanFrom dialect atLineStart 0 text = token :: second :: after)
    (isStray : token.IsStray) (secondStray : second.IsStray) :
    second.text = [Byte.backslash] ∧ Bytes.LoneReturn (after.flatMap Token.text) := by
  cases text with
  | nil => contradiction
  | cons first rest =>
      rw [scanFrom_cons] at scanned
      obtain ⟨rfl, behind⟩ := List.cons.inj scanned
      rw [classify_of_isStray isStray] at behind
      cases left : rest.drop (strayRun rest) with
      | nil =>
          simp only [stray, left] at behind
          contradiction
      | cons next others =>
          simp only [stray, left, scanFrom_cons] at behind
          obtain ⟨rfl, rfl⟩ := List.cons.inj behind
          have starts := startsToken_of_drop left
          clear scanned behind isStray
          generalize lineStartAfter atLineStart _ = state at secondStray ⊢
          rcases isStray_iff.mp secondStray with goesOn | ⟨rfl, loneReturn⟩
          · rw [starts] at goesOn
            contradiction
          · have none := strayRun_loneReturn loneReturn
            rw [firstToken, classify_loneReturn loneReturn, flatMap_text_scanFrom]
            simpa [stray, none] using loneReturn

/-- Stray tokens do not meet, and a run of unrecognised bytes stops just before the bytes
that do not begin another one; in both cases a backslash before a lone carriage return is
the only exception. -/
theorem stray_tokens_apart (dialect : Dialect) (text : Bytes) (offset : Nat)
    (atLineStart : Bool) :
    (∀ before first second after,
      scanFrom dialect atLineStart 0 (text.drop offset) = before ++ first :: second :: after →
        first.IsStray → second.IsStray →
          second.text = [Byte.backslash] ∧ Bytes.LoneReturn (after.flatMap Token.text)) ∧
    ∀ first rest,
      strayRun (first :: rest) = 0 ↔
        ¬(firstToken dialect atLineStart first rest).IsStray ∨
          first = Byte.backslash ∧ Bytes.LoneReturn rest := by
  constructor
  · intro before first second after scanned firstStray secondStray
    obtain ⟨state, behind⟩ := exists_scanFrom_of_append scanned
    exact eq_backslash_of_isStray behind firstStray secondStray
  · intro first rest
    have stops : strayRun (first :: rest) = 0 ↔ startsToken first rest = true := by
      rw [strayRun]
      cases startsToken first rest <;> simp
    rw [stops, isStray_iff]
    constructor
    · intro starts
      by_cases exception : first = Byte.backslash ∧ Bytes.LoneReturn rest
      · exact .inr exception
      · refine .inl ?_
        rintro (goesOn | isException)
        · rw [starts] at goesOn
          contradiction
        · exact exception isException
    · rintro (notStray | ⟨rfl, behind, rfl, -⟩)
      · exact eq_true_of_ne_false fun goesOn => notStray (.inl goesOn)
      · rfl

/-- A question mark, and a backslash before a lone carriage return. -/
def strayPair : Bytes := [0x3f, 0x5c, 0x0d, 0x78]

theorem stray_tokens_apart_strayPair :
    scanFrom .stock true 0 (strayPair.drop 0) =
        [] ++ ⟨.errorToken, [0x3f]⟩ :: ⟨.errorToken, [0x5c]⟩ ::
          [⟨.whitespace, [0x0d]⟩, ⟨.register, [0x78]⟩] ∧
      Bytes.LoneReturn ([⟨.whitespace, [0x0d]⟩, ⟨.register, [0x78]⟩].flatMap Token.text) := by
  have scanned : scanFrom .stock true 0 (strayPair.drop 0) =
      [] ++ ⟨.errorToken, [0x3f]⟩ :: ⟨.errorToken, [0x5c]⟩ ::
        [⟨.whitespace, [0x0d]⟩, ⟨.register, [0x78]⟩] := by rfl
  obtain ⟨apart, -⟩ := stray_tokens_apart .stock strayPair 0 true
  exact ⟨scanned, (apart _ _ _ _ scanned (by decide) (by decide)).2⟩

/-- Two stray tokens can meet, and a run can stop before a byte that begins another one. -/
theorem stray_tokens_meet :
    (¬∀ (dialect : Dialect) (text : Bytes) (offset : Nat) (atLineStart : Bool)
      (before after : List Token) (first second : Token),
      scanFrom dialect atLineStart 0 (text.drop offset) = before ++ first :: second :: after →
        first.IsStray → ¬second.IsStray) ∧
    ¬∀ (dialect : Dialect) (atLineStart : Bool) (first : UInt8) (rest : Bytes),
      strayRun (first :: rest) = 0 ↔ ¬(firstToken dialect atLineStart first rest).IsStray := by
  constructor
  · intro apart
    exact apart .stock strayPair 0 true [] [⟨.whitespace, [0x0d]⟩, ⟨.register, [0x78]⟩]
      ⟨.errorToken, [0x3f]⟩ ⟨.errorToken, [0x5c]⟩ (by rfl) (by decide) (by decide)
  · intro same
    exact (same .stock true 0x5c [0x0d, 0x78]).mp (by decide) (by decide)

end Scan
end Asm6502
