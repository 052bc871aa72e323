import Asm6502.Parse.Outcome
import Asm6502.Proofs.TokenLines
import Asm6502.Token.Scanner

/-!
# Every token stands on its own

What follows a token can only end it: no alternative of the scanner needs more than the
bytes it takes.  So the text of a token, scanned alone in the state that was in force
before it, is that token again.  The calls of a scanner give the tokens of the rest of
its text one by one, and behind them the end of the text for ever.
-/

namespace Asm6502

namespace Bytes

theorem atLineEnd_take {text : Bytes} (goesOn : atLineEnd text = false) (count : Nat) :
    atLineEnd (text.take count) = false := by
  cases count with
  | zero => rfl
  | succ count =>
      cases text with
      | nil => rfl
      | cons byte rest =>
          rw [List.take_succ_cons, atLineEnd_cons]
          rw [atLineEnd_cons] at goesOn
          cases count with
          | zero => simp_all
          | succ count => cases rest <;> exact goesOn

theorem lineLength_take (rest : Bytes) :
    lineLength (rest.take (lineLength rest)) = lineLength rest := by
  induction rest with
  | nil => rfl
  | cons byte rest ih =>
      cases ended : atLineEnd (byte :: rest) with
      | true => simp [lineLength, ended]
      | false =>
          have goesOn := atLineEnd_take ended (lineLength rest + 1)
          rw [List.take_succ_cons] at goesOn
          simp only [lineLength, ended, Bool.false_eq_true, if_false, List.take_succ_cons,
            goesOn, ih]

end Bytes

namespace Token

theorem length_le_totalLength {tokens : List Token}
    (nonempty : ∀ token ∈ tokens, token.text ≠ []) : tokens.length ≤ totalLength tokens := by
  induction tokens with
  | nil => exact Nat.le_refl 0
  | cons token rest ih =>
      have positive : 0 < token.length := List.length_pos_iff.mpr (nonempty token (by simp))
      have later := ih fun other member => nonempty other (by simp [member])
      rw [List.length_cons, totalLength]
      omega

end Token

namespace Scan

theorem run_take (holds : UInt8 → Bool) (rest : Bytes) :
    run holds (rest.take (run holds rest)) = run holds rest := by
  induction rest with
  | nil => rfl
  | cons byte rest ih =>
      simp only [run, List.takeWhile_cons] at ih ⊢
      cases held : holds byte with
      | true => simp [held, ih]
      | false => simp

theorem blankRun_take (rest : Bytes) : blankRun (rest.take (blankRun rest)) = blankRun rest := by
  induction rest with
  | nil => rfl
  | cons byte rest ih =>
      cases ended : Bytes.atLineEnd (byte :: rest) with
      | true => simp [blankRun, ended]
      | false =>
          have goesOn := Bytes.atLineEnd_take ended (blankRun rest + 1)
          rw [List.take_succ_cons] at goesOn
          cases blank : Byte.isBlank byte with
          | false => simp [blankRun, blank]
          | true => simp [blankRun, blank, ended, goesOn, ih]

theorem closing?_take {quote : UInt8} {rest : Bytes} {count : Nat}
    (found : closing? quote rest = some count) :
    closing? quote (rest.take count) = some count := by
  induction rest generalizing count with
  | nil => contradiction
  | cons byte rest ih =>
      rw [closing?] at found
      split at found
      · contradiction
      · next goesOn =>
          have inside := Bytes.atLineEnd_take (Bool.eq_false_iff.mpr goesOn) count
          split at found
          · next closes =>
              obtain rfl := Option.some.inj found
              rw [List.take_succ_cons] at inside ⊢
              rw [closing?, inside, if_neg Bool.false_ne_true, if_pos closes]
          · next open_ =>
              obtain ⟨inner, innerFound, rfl⟩ := Option.map_eq_some_iff.mp found
              rw [List.take_succ_cons] at inside ⊢
              rw [closing?, inside, if_neg Bool.false_ne_true, if_neg open_, ih innerFound]
              rfl

theorem closing?_take_none {quote : UInt8} {rest : Bytes} (none : closing? quote rest = none) :
    closing? quote (rest.take (Bytes.lineLength rest)) = Option.none := by
  induction rest with
  | nil => rfl
  | cons byte rest ih =>
      cases ended : Bytes.atLineEnd (byte :: rest) with
      | true => simp [Bytes.lineLength, ended, closing?]
      | false =>
          have goesOn := Bytes.atLineEnd_take ended (Bytes.lineLength rest + 1)
          simp only [closing?, ended, Bool.false_eq_true, if_false] at none
          split at none
          · contradiction
          · next open_ =>
              simp only [Bytes.lineLength, ended, Bool.false_eq_true, if_false]
              rw [List.take_succ_cons] at goesOn ⊢
              rw [closing?, goesOn, if_neg Bool.false_ne_true, if_neg open_,
                ih (Option.map_eq_none_iff.mp none)]
              rfl

theorem nextIs_take {holds : UInt8 → Bool} {rest : Bytes} (none : nextIs holds rest = false)
    (count : Nat) : nextIs holds (rest.take count) = false := by
  cases count with
  | zero => rfl
  | succ count => cases rest <;> exact none

theorem startsToken_take {byte : UInt8} {rest : Bytes} (stray : startsToken byte rest = false)
    (count : Nat) : startsToken byte (rest.take count) = false := by
  unfold startsToken at stray ⊢
  split at stray
  all_goals first | exact nextIs_take stray count | exact stray

theorem strayRun_take (rest : Bytes) : strayRun (rest.take (strayRun rest)) = strayRun rest := by
  induction rest with
  | nil => rfl
  | cons byte rest ih =>
      cases starts : startsToken byte rest with
      | true => simp [strayRun, starts]
      | false => simp [strayRun, starts, startsToken_take starts, ih]

/-- The scanner of one token gives the same without the bytes behind the token. -/
def Alone (rest : Bytes) (scanner : Bytes → Kind × Nat) : Prop :=
  scanner (rest.take (scanner rest).2) = scanner rest

variable {rest : Bytes}

theorem stray_alone (rest : Bytes) : Alone rest stray :=
  congrArg (Prod.mk _) (strayRun_take rest)

theorem run_alone (holds : UInt8 → Bool) (kind : Bytes → Kind) (rest : Bytes) :
    Alone rest fun rest => (kind (rest.take (run holds rest)), run holds rest) := by
  have same := run_take holds rest
  have all : (rest.take (run holds rest)).take (run holds rest) = rest.take (run holds rest) := by
    rw [List.take_take, Nat.min_self]
  simp only [Alone, same, all]

theorem blankRun_alone (rest : Bytes) : Alone rest fun rest => (.whitespace, blankRun rest) :=
  congrArg (Prod.mk _) (blankRun_take rest)

theorem comment_alone (rest : Bytes) :
    Alone rest fun rest => (.comment, Bytes.lineLength rest) :=
  congrArg (Prod.mk _) (Bytes.lineLength_take rest)

theorem guarded_alone {holds : UInt8 → Bool} (kind : Bytes → Kind) {inner : UInt8 → Bool}
    (first : ∀ byte, holds byte = true → inner byte = true) (rest : Bytes) :
    Alone rest fun rest =>
      if nextIs holds rest then (kind (rest.take (run inner rest)), run inner rest)
      else stray rest := by
  cases goesOn : nextIs holds rest with
  | false =>
      have still := nextIs_take goesOn (stray rest).2
      simpa only [Alone, goesOn, Bool.false_eq_true, if_false, still] using stray_alone rest
  | true =>
      obtain ⟨byte, behind, rfl⟩ : ∃ byte behind, rest = byte :: behind := by
        cases rest with
        | nil => contradiction
        | cons byte behind => exact ⟨byte, behind, rfl⟩
      have held : holds byte = true := goesOn
      have still : nextIs holds ((byte :: behind).take (run inner (byte :: behind))) = true := by
        simp [run, first byte held, nextIs, held]
      simpa only [Alone, goesOn, if_true, still] using run_alone inner kind (byte :: behind)

theorem operator_alone (first : Char) (alone : Kind) (rest : Bytes) :
    Alone rest (operator first alone) := by
  cases rest with
  | nil => rfl
  | cons next rest =>
      unfold Alone operator
      cases found : double? first (Byte.char next) with
      | none => simp [found]
      | some kind => simp [found]

theorem colon_alone (atLineStart : Bool) (rest : Bytes) : Alone rest (colon atLineStart) := by
  cases atLineStart with
  | true => rfl
  | false =>
      cases rest with
      | nil => rfl
      | cons next rest =>
          have distance : run (· == next) ((next :: rest).take (run (· == next) (next :: rest))) =
              run (· == next) (next :: rest) := run_take _ _
          have longer : run (· == next) (next :: rest) = run (· == next) rest + 1 := by
            simp [run]
          rw [longer, List.take_succ_cons] at distance
          unfold Alone
          generalize taken : (next :: rest).take (colon false (next :: rest)).2 = shorter
          revert taken
          simp only [colon, Bool.false_eq_true, if_false]
          split
          all_goals rintro rfl
          case h_1 isColon => simp [isColon]
          case h_2 isEq => simp [isEq]
          case h_3 isPlus =>
            obtain rfl : next = 0x2b := Byte.char_injective isPlus
            rw [longer]
            exact congrArg (Prod.mk _) distance
          case h_4 isMinus =>
            obtain rfl : next = 0x2d := Byte.char_injective isMinus
            rw [longer]
            exact congrArg (Prod.mk _) distance
          case h_5 => rfl

theorem stringLiteral_alone (rest : Bytes) : Alone rest stringLiteral := by
  unfold Alone stringLiteral
  cases found : closing? 0x22 rest with
  | none => simp only [closing?_take_none found, Bytes.lineLength_take]
  | some count => simp only [closing?_take found]

theorem character_alone (rest : Bytes) : Alone rest character := by
  unfold Alone
  simp only [character_eq]
  cases quoted : (rest.drop 1).head?.any (· == 0x27) with
  | false =>
      have still (count : Nat) : ((rest.take count).drop 1).head?.any (· == 0x27) = false := by
        rw [List.drop_take]
        exact nextIs_take quoted (count - 1)
      simp only [Bool.false_eq_true, if_false, still]
      cases found : closing? 0x27 rest with
      | none => simp [closing?_take_none found, Bytes.lineLength_take]
      | some count => simp [closing?_take found]
  | true =>
      cases ended : Bytes.atLineEnd rest with
      | true => simp [closing?, Bytes.lineLength]
      | false =>
          have still := Bytes.atLineEnd_take ended 2
          obtain ⟨first, second, behind, rfl⟩ :
              ∃ first second behind, rest = first :: second :: behind := by
            rcases rest with _ | ⟨first, _ | ⟨second, behind⟩⟩
            · contradiction
            · contradiction
            · exact ⟨first, second, behind, rfl⟩
          have isQuote : (second == 0x27) = true := by simpa using quoted
          simp_all

theorem lineEnd_alone (ends : Bytes.atLineEnd rest = true) :
    Bytes.atLineEnd (rest.take (lineEndLength rest)) = true ∧
      lineEndLength (rest.take (lineEndLength rest)) = lineEndLength rest := by
  unfold Bytes.atLineEnd at ends
  split at ends
  · exact ⟨rfl, rfl⟩
  · exact ⟨rfl, rfl⟩
  · contradiction

/-- Before a stray run there is no line end: both of its bytes start a token. -/
theorem atLineEnd_take_strayRun (rest : Bytes) :
    Bytes.atLineEnd (rest.take (strayRun rest)) = false := by
  cases rest with
  | nil => rfl
  | cons byte rest =>
      cases starts : startsToken byte rest with
      | true => simp [strayRun, starts, Bytes.atLineEnd]
      | false =>
          rw [strayRun, starts, if_neg Bool.false_ne_true, List.take_succ_cons,
            Bytes.atLineEnd_cons]
          have notNewline : byte ≠ 0x0a := by
            rintro rfl
            contradiction
          have notReturn : byte ≠ 0x0d := by
            rintro rfl
            contradiction
          simp [notNewline, notReturn]

theorem continuation_alone (rest : Bytes) :
    Alone rest fun rest =>
      if Bytes.atLineEnd rest then (.lineContinuation, lineEndLength rest) else stray rest := by
  cases ends : Bytes.atLineEnd rest with
  | true =>
      obtain ⟨still, same⟩ := lineEnd_alone ends
      simp only [Alone, ends, if_true, still, same]
  | false =>
      have still : Bytes.atLineEnd (rest.take (stray rest).2) = false :=
        atLineEnd_take_strayRun rest
      simpa only [Alone, ends, Bool.false_eq_true, if_false, still] using stray_alone rest

theorem return_alone (rest : Bytes) :
    Alone rest fun rest =>
      if rest.head? == some Byte.newline then (.eol, 1) else (.whitespace, blankRun rest) := by
  cases rest with
  | nil => rfl
  | cons next rest =>
      unfold Alone
      cases isNewline : next == Byte.newline with
      | true => simp_all
      | false =>
          have none : ∀ count, ((next :: rest).take count).head? ≠ some Byte.newline := by
            rintro (_ | count)
            · simp
            · simpa using isNewline
          have here : (next :: rest).head? ≠ some Byte.newline := by simpa using isNewline
          simp only [beq_iff_eq, here, none, if_false, blankRun_take]

theorem Chooses.alone {dialect : Dialect} {atLineStart : Bool} {first : UInt8}
    {scanner : Bytes → Kind × Nat} (chosen : Chooses dialect atLineStart first scanner)
    (rest : Bytes) : Alone rest scanner := by
  have word (kind : Bytes → Kind) := run_alone Byte.continuesWord kind rest
  have startsWord (byte : UInt8) (starts : Byte.startsWord byte = true) :
      Byte.continuesWord byte = true := by
    simp [Byte.continuesWord, starts]
  cases chosen with
  | single | newline => rfl
  | carriageReturn => exact return_alone rest
  | blank => exact blankRun_alone rest
  | comment => exact comment_alone rest
  | backslash => exact continuation_alone rest
  | colon => exact colon_alone atLineStart rest
  | operator => exact operator_alone _ _ rest
  | hexNumber | binaryNumber =>
      exact guarded_alone (fun _ => .number) (fun _ held => held) rest
  | character => exact character_alone rest
  | stringLiteral => exact stringLiteral_alone rest
  | localIdent => exact guarded_alone (fun _ => .localIdent) startsWord rest
  | dottedWord =>
      exact guarded_alone (fun behind => Scan.dottedWord dialect (first :: behind)) startsWord rest
  | number => exact word fun _ => .number
  | plainWord => exact word fun behind => Scan.plainWord dialect (first :: behind)
  | stray => exact stray_alone rest

theorem classify_alone (dialect : Dialect) (atLineStart : Bool) (first : UInt8) (rest : Bytes) :
    Alone rest (classify dialect atLineStart first) :=
  (chooses_classify dialect atLineStart first).alone rest

/-- The text of a token, scanned alone in the state before it, is the token. -/
theorem scanFrom_text_firstToken (dialect : Dialect) (atLineStart : Bool) (first : UInt8)
    (rest : Bytes) :
    scanFrom dialect atLineStart 0 (firstToken dialect atLineStart first rest).text =
      [firstToken dialect atLineStart first rest] := by
  have alone : classify dialect atLineStart first
      (rest.take (classify dialect atLineStart first rest).2) =
        classify dialect atLineStart first rest := classify_alone dialect atLineStart first rest
  have same : firstToken dialect atLineStart first
      (rest.take (classify dialect atLineStart first rest).2) =
        firstToken dialect atLineStart first rest := by
    rw [firstToken, alone, List.take_take, Nat.min_self, firstToken]
  have none : (rest.take (classify dialect atLineStart first rest).2).drop
      (classify dialect atLineStart first rest).2 = [] := by
    rw [List.drop_take, Nat.sub_self, List.take_zero]
  have here : (firstToken dialect atLineStart first rest).text =
      first :: rest.take (classify dialect atLineStart first rest).2 := rfl
  rw [here, scanFrom_cons, same, alone, none, scanFrom]

end Scan

namespace Scanner

variable {dialect : Dialect} {scanner : Scanner}

/-- The tokens that are still to come. -/
def tokens (dialect : Dialect) (scanner : Scanner) : List Token :=
  Scan.scanFrom dialect scanner.atLineStart 0 scanner.rest

theorem flatMap_text_tokens (dialect : Dialect) (scanner : Scanner) :
    (scanner.tokens dialect).flatMap Token.text = scanner.rest :=
  Scan.flatMap_text_scanFrom dialect scanner.atLineStart scanner.rest

theorem rest_of_tokens (none : scanner.tokens dialect = []) : scanner.rest = [] := by
  rw [← flatMap_text_tokens dialect scanner, none]
  rfl

theorem next_of_rest (dialect : Dialect) {scanner : Scanner} (none : scanner.rest = []) :
    scanner.next dialect = (⟨.eof, []⟩, scanner) := by
  rw [next, none]

/-- A call that gives a token: where it leaves the scanner, and the token on its own. -/
structure Gives (dialect : Dialect) (scanner : Scanner) (token : Token) (behind : Scanner) :
    Prop where
  next_eq : scanner.next dialect = (token, behind)
  scanned : Scan.IsScanned token
  offset_eq : behind.offset = scanner.offset + token.length
  rest_eq : scanner.rest = token.text ++ behind.rest
  alone : (resume token.text 0 scanner.atLineStart).tokens dialect = [token]

theorem gives_of_tokens {token : Token} {more : List Token}
    (begins : scanner.tokens dialect = token :: more) :
    ∃ behind, Gives dialect scanner token behind ∧ behind.tokens dialect = more := by
  obtain ⟨offset, rest, atLineStart⟩ := scanner
  cases rest with
  | nil => contradiction
  | cons first rest =>
      simp only [tokens, Scan.scanFrom_cons] at begins
      obtain ⟨rfl, rfl⟩ := List.cons.inj begins
      exact ⟨_,
        { next_eq := rfl
          scanned := Scan.isScanned_firstToken dialect atLineStart first rest
          offset_eq := rfl
          rest_eq := congrArg (first :: ·) (List.take_append_drop _ rest).symm
          alone := Scan.scanFrom_text_firstToken dialect atLineStart first rest }, rfl⟩

theorem Gives.kind_ne_eof {token : Token} {behind : Scanner}
    (gives : Gives dialect scanner token behind) : token.kind ≠ .eof := by
  intro isEof
  have cases := gives.scanned.kind_cases
  rw [isEof] at cases
  exact absurd cases (by decide)

theorem calls_eq (fuel : Nat) (scanner : Scanner)
    (enough : (scanner.tokens dialect).length ≤ fuel) :
    (scanner.calls dialect fuel).map Prod.fst = scanner.tokens dialect ++ [⟨.eof, []⟩] := by
  induction fuel generalizing scanner with
  | zero =>
      have none := List.eq_nil_of_length_eq_zero (Nat.le_zero.mp enough)
      simp [calls, none, next_of_rest dialect (rest_of_tokens none)]
  | succ fuel ih =>
      cases left : scanner.tokens dialect with
      | nil => simp [calls, next_of_rest dialect (rest_of_tokens left)]
      | cons token more =>
          obtain ⟨behind, gives, rfl⟩ := gives_of_tokens left
          rw [left] at enough
          have later := ih behind (by simpa using enough)
          simp [calls, gives.next_eq, gives.kind_ne_eof, later]

theorem after_succ (dialect : Dialect) (index : Nat) (scanner : Scanner) :
    scanner.after dialect (index + 1) = ((scanner.after dialect index).next dialect).2 := by
  induction index generalizing scanner with
  | zero => rfl
  | succ index ih => exact ih (scanner.next dialect).2

/-- Each call takes one of the tokens to come and moves the scanner behind its text. -/
theorem after_eq (dialect : Dialect) (index : Nat) (scanner : Scanner) :
    (scanner.after dialect index).tokens dialect = (scanner.tokens dialect).drop index ∧
      (scanner.after dialect index).offset =
        scanner.offset + Token.totalLength ((scanner.tokens dialect).take index) := by
  induction index generalizing scanner with
  | zero => exact ⟨rfl, rfl⟩
  | succ index ih =>
      cases left : scanner.tokens dialect with
      | nil =>
          have stays := congrArg Prod.snd (next_of_rest dialect (rest_of_tokens left))
          simpa [after, stays, left] using ih scanner
      | cons token more =>
          obtain ⟨behind, gives, rfl⟩ := gives_of_tokens left
          simp only [after, gives.next_eq, ih behind, gives.offset_eq, List.drop_succ_cons,
            List.take_succ_cons, Token.totalLength, Nat.add_assoc, and_self]

theorem after_of_rest (dialect : Dialect) (more : Nat) {scanner : Scanner}
    (none : scanner.rest = []) : scanner.after dialect more = scanner := by
  induction more with
  | zero => rfl
  | succ more ih => rw [after_succ, ih, next_of_rest dialect none]

theorem after_add (dialect : Dialect) (index more : Nat) (scanner : Scanner) :
    scanner.after dialect (index + more) = (scanner.after dialect index).after dialect more := by
  induction more with
  | zero => rfl
  | succ more ih => rw [← Nat.add_assoc, after_succ, ih, after_succ]

theorem totalLength_tokens (dialect : Dialect) (scanner : Scanner) :
    Token.totalLength (scanner.tokens dialect) = scanner.rest.length := by
  rw [Token.totalLength_eq_length_flatMap, flatMap_text_tokens]

theorem length_tokens_le (dialect : Dialect) (scanner : Scanner) :
    (scanner.tokens dialect).length ≤ scanner.rest.length := by
  rw [← totalLength_tokens dialect]
  exact Token.length_le_totalLength fun token member =>
    (Scan.isScanned_of_mem member).text_ne_nil

/-- What a scanner has left is its text from its offset on. -/
def Over (text : Bytes) (scanner : Scanner) : Prop :=
  scanner.rest = text.drop scanner.offset

theorem over_resume (text : Bytes) (offset : Nat) (atLineStart : Bool) :
    Over text (resume text offset atLineStart) := by
  rcases Nat.le_total offset text.length with inside | outside
  · simp [Over, resume, Nat.min_eq_left inside]
  · simp [Over, resume, Nat.min_eq_right outside, List.drop_of_length_le outside]

theorem over_next {text : Bytes} (onText : Over text scanner) :
    Over text (scanner.next dialect).2 := by
  cases left : scanner.tokens dialect with
  | nil => rwa [next_of_rest dialect (rest_of_tokens left)]
  | cons token more =>
      obtain ⟨behind, gives, rfl⟩ := gives_of_tokens left
      have rest := gives.rest_eq
      rw [onText] at rest
      rw [gives.next_eq, Over, gives.offset_eq, ← List.drop_drop, rest, Token.length,
        List.drop_left]

theorem over_after {text : Bytes} (onText : Over text scanner) (index : Nat) :
    Over text (scanner.after dialect index) := by
  induction index with
  | zero => exact onText
  | succ index ih =>
      rw [after_succ]
      exact over_next ih

theorem offset_after_le (text : Bytes) (offset : Nat) (atLineStart : Bool) (index : Nat) :
    ((resume text offset atLineStart).after dialect index).offset ≤ text.length := by
  have start : (resume text offset atLineStart).offset = min offset text.length := rfl
  have whole := totalLength_tokens dialect (resume text offset atLineStart)
  rw [← List.take_append_drop index ((resume text offset atLineStart).tokens dialect),
    Token.totalLength_append] at whole
  have left : (resume text offset atLineStart).rest.length = text.length - offset :=
    List.length_drop
  rw [(after_eq dialect index _).2, start]
  omega

theorem gives_after {index : Nat} {token : Token}
    (here : (scanner.tokens dialect)[index]? = some token) :
    Gives dialect (scanner.after dialect index) token (scanner.after dialect (index + 1)) := by
  obtain ⟨inside, same⟩ := List.getElem?_eq_some_iff.mp here
  have left : (scanner.after dialect index).tokens dialect =
      token :: (scanner.tokens dialect).drop (index + 1) := by
    rw [(after_eq dialect index scanner).1, List.drop_eq_getElem_cons inside, same]
  obtain ⟨behind, gives, -⟩ := gives_of_tokens left
  rwa [after_succ, gives.next_eq]

/-- The scanner tiles the rest of the text, and every token stands on its own.  The calls
up to the first end of the text give the tokens of the rest; the scanner starts at the
offset, each token begins where the one before it ends, and behind the last one the scanner
stays at the end of the text whatever the number of further calls.  In a text that is not
too long for 32 bits no offset needs more. -/
theorem resume_tiles (dialect : Dialect) (text : Bytes) (offset : Nat) (atLineStart : Bool) :
    let start := resume text offset atLineStart
    let tokens := Scan.scanFrom dialect atLineStart 0 (text.drop offset)
    (start.calls dialect text.length).map Prod.fst = tokens ++ [⟨.eof, []⟩] ∧
    tokens.flatMap Token.text = text.drop offset ∧
    start.offset = min offset text.length ∧
    (∀ index token, tokens[index]? = some token →
      let here := start.after dialect index
      let behind := start.after dialect (index + 1)
      here.next dialect = (token, behind) ∧ token.kind ≠ .eof ∧ token.text ≠ [] ∧
      behind.offset = here.offset + token.length ∧
      (text.drop here.offset).take token.length = token.text ∧
      ((resume token.text 0 here.atLineStart).calls dialect token.length).map Prod.fst =
        [token, ⟨.eof, []⟩]) ∧
    (text.length ≤ maxTextLength →
      ∀ index, (start.after dialect index).offset ≤ maxTextLength) ∧
    ∀ more,
      let final := start.after dialect tokens.length
      final.offset = text.length ∧ start.after dialect (tokens.length + more) = final ∧
      final.next dialect = (⟨.eof, []⟩, final) := by
  intro start tokens
  have onText : Over text start := over_resume text offset atLineStart
  have tokensEq : start.tokens dialect = tokens := rfl
  have few : (start.tokens dialect).length ≤ text.length :=
    Nat.le_trans (length_tokens_le dialect start) (List.length_drop ▸ Nat.sub_le _ _)
  obtain ⟨noneLeft, finalOffset⟩ := after_eq dialect tokens.length start
  rw [tokensEq, List.drop_length] at noneLeft
  have noRest := rest_of_tokens noneLeft
  refine ⟨calls_eq text.length start few, flatMap_text_tokens dialect start, rfl, ?_,
    fun fits index => Nat.le_trans (offset_after_le text offset atLineStart index) fits, ?_⟩
  · intro index token isHere here behind
    have gives : Gives dialect here token behind := gives_after isHere
    have nonempty : token.text ≠ [] := gives.scanned.text_ne_nil
    have slice : (text.drop here.offset).take token.length = token.text := by
      rw [← over_after onText index, gives.rest_eq, Token.length, List.take_left]
    refine ⟨gives.next_eq, gives.kind_ne_eof, nonempty, gives.offset_eq, slice, ?_⟩
    rw [calls_eq, gives.alone, List.singleton_append]
    rw [gives.alone]
    exact List.length_pos_iff.mpr nonempty
  · intro more final
    have atEnd : final.offset = text.length := by
      have all : Token.totalLength tokens = text.length - offset := by
        rw [← tokensEq, totalLength_tokens, ← List.length_drop]
        rfl
      rw [finalOffset, tokensEq, List.take_length, all]
      simp only [start, resume]
      omega
    refine ⟨atEnd, ?_, next_of_rest dialect noRest⟩
    rw [after_add, after_of_rest dialect more noRest]

/-- Behind a blank at the start of a line a colon is a token of its own, and stays one
without the plus behind it. -/
theorem resume_tiles_colon :
    (Scan.scanFrom .stock true 0 ((Bytes.ascii "a :+").drop 1))[1]? =
        some ⟨.colon, Bytes.ascii ":"⟩ ∧
      ((resume (Bytes.ascii ":") 0
        ((resume (Bytes.ascii "a :+") 1 true).after .stock 1).atLineStart).calls .stock 1).map
          Prod.fst = [⟨.colon, Bytes.ascii ":"⟩, ⟨.eof, []⟩] := by
  have isColon : (Scan.scanFrom .stock true 0 ((Bytes.ascii "a :+").drop 1))[1]? =
      some ⟨.colon, Bytes.ascii ":"⟩ := by rfl
  obtain ⟨-, -, -, each, -⟩ := resume_tiles .stock (Bytes.ascii "a :+") 1 true
  obtain ⟨-, -, -, -, -, alone⟩ := each 1 _ isColon
  exact ⟨isColon, alone⟩

end Scanner
end Asm6502
