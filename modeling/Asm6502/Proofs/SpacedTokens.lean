import Asm6502.Proofs.TokenLines

/-!
# Tokens between spaces

A token inside a line ends at the latest where a space follows.  So tokens that are
printed one by one with single spaces between them are scanned back as they are.
-/

namespace Asm6502

/-- A token of this kind carries meaning on its line. -/
def Kind.isMark (kind : Kind) : Bool :=
  !kind.isTrivia && kind != .eol && kind != .errorToken

namespace Scan

variable {rest more : Bytes}

theorem run_before_space {holds : UInt8 → Bool} (stops : holds 0x20 = false) :
    run holds (rest ++ 0x20 :: more) = run holds rest := by
  induction rest with
  | nil => simp [run, stops]
  | cons byte rest ih =>
      simp only [run, List.cons_append, List.takeWhile_cons] at ih ⊢
      cases holds byte with
      | false => rfl
      | true => simpa using ih

theorem nextIs_before_space {holds : UInt8 → Bool} (stops : holds 0x20 = false) :
    nextIs holds (rest ++ 0x20 :: more) = nextIs holds rest := by
  cases rest <;> simp [nextIs, stops]

theorem closing?_of_append {count : Nat} (found : closing? 0x22 rest = some count)
    (more : Bytes) : closing? 0x22 (rest ++ more) = some count := by
  induction rest generalizing count with
  | nil => contradiction
  | cons byte rest ih =>
      simp only [closing?, List.cons_append] at found ⊢
      by_cases closes : (byte == 0x22) = true
      · obtain rfl : byte = 0x22 := by simpa using closes
        obtain rfl : count = 1 := by simpa [Bytes.atLineEnd] using found.symm
        simp [Bytes.atLineEnd]
      · split at found
        · contradiction
        · next goesOn =>
            obtain ⟨inner, innerFound, rfl⟩ := Option.map_eq_some_iff.mp found
            have stillGoesOn : Bytes.atLineEnd (byte :: (rest ++ more)) = false := by
              cases rest with
              | nil => contradiction
              | cons second rest =>
                  revert goesOn
                  simp only [List.cons_append]
                  unfold Bytes.atLineEnd
                  split <;> simp_all
            rw [stillGoesOn, if_neg Bool.false_ne_true, if_neg closes, ih innerFound]
            rfl

/-- If the scanner of one token takes all of a text, it takes just that text where a
space follows. -/
def StopsAtSpace (rest more : Bytes) (scanner : Bytes → Kind × Nat) : Prop :=
  rest.length ≤ (scanner rest).2 → (scanner rest).1.isMark = true →
    scanner (rest ++ 0x20 :: more) = ((scanner rest).1, rest.length)

theorem double?_space (first : Char) : double? first (Byte.char 0x20) = none := by
  unfold double?
  split <;> first | rfl | (rename_i isSpace; exact absurd isSpace (by decide))

theorem operator_stopsAtSpace (first : Char) (alone : Kind) :
    StopsAtSpace rest more (operator first alone) := by
  intro enough _
  cases rest with
  | nil => simp [operator, double?_space]
  | cons next rest =>
      simp only [operator, List.cons_append, List.head?_cons, Option.bind_some] at enough ⊢
      cases found : double? first (Byte.char next) with
      | none => simp [found] at enough
      | some kind =>
          obtain rfl : rest = [] := by simpa [found] using enough
          rfl

theorem colon_stopsAtSpace (atLineStart : Bool) :
    StopsAtSpace rest more (colon atLineStart) := by
  intro enough _
  cases atLineStart with
  | true =>
      obtain rfl : rest = [] := by simpa [colon] using enough
      rfl
  | false =>
      cases rest with
      | nil => rfl
      | cons next rest =>
          have alone (none : rest.length + 1 ≤ 0) : False := by omega
          have double (one : rest.length + 1 ≤ 1) : rest = [] :=
            List.eq_nil_of_length_eq_zero (by omega)
          have distance (sign : next ≠ 0x20) (enough : rest.length + 1 ≤
              run (fun byte => byte == next) (next :: rest)) :
              run (fun byte => byte == next) (next :: (rest ++ 0x20 :: more)) =
                rest.length + 1 := by
            have stops : ((0x20 : UInt8) == next) = false := by simpa using Ne.symm sign
            have same : run (fun byte => byte == next) ((next :: rest) ++ 0x20 :: more) =
                run (fun byte => byte == next) (next :: rest) := run_before_space stops
            rw [← List.cons_append, same]
            exact Nat.le_antisymm (run_le _ _) enough
          simp only [colon, List.cons_append, Bool.false_eq_true, if_false] at enough ⊢
          split at enough
          · obtain rfl := double enough
            rfl
          · obtain rfl := double enough
            rfl
          · next isPlus =>
              obtain rfl : next = 0x2b := Byte.char_injective isPlus
              exact congrArg (Prod.mk _) (distance (by decide) enough)
          · next isMinus =>
              obtain rfl : next = 0x2d := Byte.char_injective isMinus
              exact congrArg (Prod.mk _) (distance (by decide) enough)
          · exact (alone enough).elim

theorem character_stopsAtSpace : StopsAtSpace rest more character := by
  intro enough marks
  match rest with
  | [] => contradiction
  | [byte] => contradiction
  | first :: second :: behind =>
      by_cases quoted : second = 0x27
      · subst quoted
        have sameEnd (others : Bytes) : Bytes.atLineEnd (first :: 0x27 :: others) =
            Bytes.atLineEnd [first] := by
          unfold Bytes.atLineEnd
          split <;> simp_all
        simp only [character, sameEnd, List.cons_append] at enough marks ⊢
        cases ended : Bytes.atLineEnd [first] with
        | true =>
            rw [ended] at marks
            contradiction
        | false =>
            rw [ended] at enough
            obtain rfl : behind = [] := by simpa using enough
            rfl
      · have isError : (character (first :: second :: behind)).1 = .errorToken := by
          unfold character
          split
          · next same =>
              exact absurd (List.cons.inj (List.cons.inj same).2).1 quoted
          · rfl
        rw [isError] at marks
        contradiction

theorem stringLiteral_stopsAtSpace : StopsAtSpace rest more stringLiteral := by
  intro enough marks
  unfold stringLiteral at enough marks ⊢
  cases found : closing? 0x22 rest with
  | none =>
      rw [found] at marks
      contradiction
  | some count =>
      rw [found] at enough
      rw [closing?_of_append found]
      exact congrArg (Prod.mk _) (Nat.le_antisymm (closing?_le found) enough)

theorem run_stopsAtSpace {holds : UInt8 → Bool} (stops : holds 0x20 = false)
    (kind : Bytes → Kind) :
    StopsAtSpace rest more fun rest => (kind (rest.take (run holds rest)), run holds rest) := by
  intro enough _
  have all : run holds rest = rest.length := Nat.le_antisymm (run_le holds rest) enough
  simp only [run_before_space stops, all, List.take_left, List.take_length]

theorem guarded_stopsAtSpace {holds : UInt8 → Bool} {scanner : Bytes → Kind × Nat}
    (stops : holds 0x20 = false) (stopsInside : StopsAtSpace rest more scanner) :
    StopsAtSpace rest more fun rest => if nextIs holds rest then scanner rest else stray rest := by
  intro enough marks
  simp only [nextIs_before_space stops] at enough marks ⊢
  split at marks
  · next goesOn =>
      rw [if_pos goesOn] at enough
      rw [if_pos goesOn, if_pos goesOn]
      exact stopsInside enough marks
  · contradiction

theorem Chooses.stopsAtSpace {dialect : Dialect} {atLineStart : Bool} {first : UInt8}
    {scanner : Bytes → Kind × Nat} (chosen : Chooses dialect atLineStart first scanner) :
    StopsAtSpace rest more scanner := by
  have word (kind : Bytes → Kind) : StopsAtSpace rest more fun rest =>
      (kind (rest.take (run Byte.continuesWord rest)), run Byte.continuesWord rest) :=
    run_stopsAtSpace rfl kind
  cases chosen with
  | single | newline =>
      intro enough _
      obtain rfl : rest = [] := by simpa using enough
      rfl
  | carriageReturn | backslash =>
      -- Blanks, line ends and errors carry no meaning of their own.
      intro _ marks
      dsimp only at marks
      split at marks
      all_goals contradiction
  | blank | comment | stray =>
      intro _ marks
      contradiction
  | colon => exact colon_stopsAtSpace atLineStart
  | operator => exact operator_stopsAtSpace _ _
  | hexNumber | binaryNumber =>
      exact guarded_stopsAtSpace rfl (run_stopsAtSpace (by decide) fun _ => .number)
  | character => exact character_stopsAtSpace
  | stringLiteral => exact stringLiteral_stopsAtSpace
  | localIdent => exact guarded_stopsAtSpace rfl (word fun _ => .localIdent)
  | dottedWord =>
      exact guarded_stopsAtSpace rfl
        (word fun behind => Scan.dottedWord dialect (first :: behind))
  | number => exact word fun _ => .number
  | plainWord => exact word fun behind => Scan.plainWord dialect (first :: behind)

theorem classify_stopsAtSpace (dialect : Dialect) (atLineStart : Bool) (first : UInt8) :
    StopsAtSpace rest more (classify dialect atLineStart first) :=
  (chooses_classify dialect atLineStart first).stopsAtSpace

end Scan

namespace Token

variable {dialect : Dialect} {token : Token} {more : Bytes}

def space : Token := ⟨.whitespace, [0x20]⟩

/-- The texts of tokens with single spaces between them. -/
def print (tokens : List Token) : Bytes :=
  List.intercalate [0x20] (tokens.map text)

/-- A token that carries meaning, and whose text alone is scanned as the token. -/
structure StandsAlone (dialect : Dialect) (token : Token) : Prop where
  scanned : Scan.scanFrom dialect false 0 token.text = [token]
  isMark : token.kind.isMark = true

theorem StandsAlone.not_isTrivia (alone : StandsAlone dialect token) :
    token.isTrivia = false := by
  have marks := alone.isMark
  simp only [Kind.isMark, Bool.and_eq_true, Bool.not_eq_true'] at marks
  exact marks.1.1

theorem StandsAlone.kind_ne_eol (alone : StandsAlone dialect token) : token.kind ≠ .eol := by
  intro isEol
  have marks := alone.isMark
  rw [isEol] at marks
  contradiction

theorem StandsAlone.lineStartAfter (alone : StandsAlone dialect token) :
    Scan.lineStartAfter false token.kind = false := by
  have significant : token.kind.isTrivia = false := alone.not_isTrivia
  rw [Scan.lineStartAfter, significant]
  simpa using alone.kind_ne_eol

theorem StandsAlone.exists_first (alone : StandsAlone dialect token) :
    ∃ first rest, token.text = first :: rest ∧
      token = Scan.firstToken dialect false first rest ∧
        rest.length ≤ (Scan.classify dialect false first rest).2 := by
  have scanned := alone.scanned
  cases text : token.text with
  | nil =>
      rw [text] at scanned
      contradiction
  | cons first rest =>
      rw [text, Scan.scanFrom_cons] at scanned
      obtain ⟨same, none⟩ := List.cons.inj scanned
      refine ⟨first, rest, rfl, same.symm, ?_⟩
      cases left : rest.drop (Scan.classify dialect false first rest).2 with
      | nil => exact List.drop_eq_nil_iff.mp left
      | cons second others =>
          rw [left, Scan.scanFrom_cons] at none
          contradiction

/-- In front of a space the token is scanned as if it stood alone. -/
theorem StandsAlone.scanFrom_append (alone : StandsAlone dialect token) (more : Bytes) :
    Scan.scanFrom dialect false 0 (token.text ++ 0x20 :: more) =
      token :: Scan.scanFrom dialect false 0 (0x20 :: more) := by
  obtain ⟨first, rest, text, same, enough⟩ := alone.exists_first
  have kind : (Scan.classify dialect false first rest).1 = token.kind :=
    (congrArg Token.kind same).symm
  have stops : Scan.classify dialect false first (rest ++ 0x20 :: more) = (_, rest.length) :=
    Scan.classify_stopsAtSpace dialect false first enough (kind ▸ alone.isMark)
  have here : Scan.firstToken dialect false first (rest ++ 0x20 :: more) = token := by
    rw [Scan.firstToken, stops, List.take_left, kind, ← text]
  rw [text, List.cons_append, Scan.scanFrom_cons, here, alone.lineStartAfter, stops,
    List.drop_left]

end Token
end Asm6502
