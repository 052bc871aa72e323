import Asm6502.Proofs.ScanLocality
import Asm6502.Proofs.ScannedKinds
import Asm6502.Proofs.TokenLines

/-!
# Tokens in front of a brace

A brace is a token by itself and ends every token before it, except where a comment or a
quote has been opened.  So the tokens up to a brace do not depend on what stands behind
it, nor on which brace it is, and neither do those up to the end of a text, if no comment
and no error stands among them.
-/

namespace Asm6502

/-- The text has ended, or goes on with a brace. -/
def Bytes.Fenced : Bytes → Prop
  | [] => True
  | byte :: _ => byte = 0x7b ∨ byte = 0x7d

namespace Bytes

variable {fence : Bytes}

theorem Fenced.any_head? (fenced : Fenced fence) {holds : UInt8 → Bool}
    (noBrace : holds 0x7b = false ∧ holds 0x7d = false) : fence.head?.any holds = false := by
  cases fence with
  | nil => rfl
  | cons byte rest =>
      rcases fenced with rfl | rfl
      · exact noBrace.1
      · exact noBrace.2

theorem Fenced.any_head?_append (fenced : Fenced fence) {holds : UInt8 → Bool}
    (noBrace : holds 0x7b = false ∧ holds 0x7d = false) (text : Bytes) :
    (text ++ fence).head?.any holds = text.head?.any holds := by
  cases text with
  | nil => exact fenced.any_head? noBrace
  | cons byte rest => rfl

theorem Fenced.atLineEnd_append (fenced : Fenced fence) (text : Bytes) :
    atLineEnd (text ++ fence) = atLineEnd text := by
  cases text with
  | nil =>
      cases fence with
      | nil => rfl
      | cons byte rest => rcases fenced with rfl | rfl <;> rfl
  | cons byte rest =>
      rw [List.cons_append, atLineEnd_cons, atLineEnd_cons,
        fenced.any_head?_append ⟨rfl, rfl⟩]

theorem Fenced.lineLength_append (fenced : Fenced fence) {text : Bytes}
    (ends : lineLength text < text.length) : lineLength (text ++ fence) = lineLength text := by
  induction text with
  | nil => contradiction
  | cons byte rest ih =>
      have sameEnd := fenced.atLineEnd_append (byte :: rest)
      rw [List.cons_append] at sameEnd ⊢
      simp only [lineLength, sameEnd, List.length_cons] at ends ⊢
      split
      · rfl
      · next goesOn => rw [ih (by simpa [goesOn] using ends)]

theorem Fenced.lineLength_append_of_not_ends (fenced : Fenced fence) {text : Bytes}
    (goesOn : text.length ≤ lineLength text) :
    lineLength (text ++ fence) = text.length + lineLength fence := by
  induction text with
  | nil => simp
  | cons byte rest ih =>
      have sameEnd := fenced.atLineEnd_append (byte :: rest)
      rw [List.cons_append] at sameEnd ⊢
      simp only [lineLength, sameEnd, List.length_cons] at goesOn ⊢
      split
      · next ended => simp [ended] at goesOn
      · next inside =>
          rw [ih (by simpa [inside] using goesOn)]
          omega

theorem Fenced.lineLength_pos (fenced : Fenced fence) (nonempty : fence ≠ []) :
    0 < lineLength fence := by
  cases fence with
  | nil => contradiction
  | cons byte rest =>
      rcases fenced with rfl | rfl
      all_goals exact Nat.succ_pos _

end Bytes

namespace Scan

open Bytes

variable {text fence other : Bytes}

theorem run_append_fence {holds : UInt8 → Bool}
    (noBrace : holds 0x7b = false ∧ holds 0x7d = false) (fenced : Fenced fence) :
    run holds (text ++ fence) = run holds text := by
  induction text with
  | nil =>
      cases fence with
      | nil => rfl
      | cons byte rest => rcases fenced with rfl | rfl <;> simp [run, noBrace]
  | cons byte rest ih =>
      simp only [run, List.cons_append, List.takeWhile_cons] at ih ⊢
      split
      · simpa using ih
      · rfl

theorem blankRun_append_fence (fenced : Fenced fence) :
    blankRun (text ++ fence) = blankRun text := by
  induction text with
  | nil =>
      cases fence with
      | nil => rfl
      | cons byte rest => rcases fenced with rfl | rfl <;> rfl
  | cons byte rest ih =>
      have sameEnd := fenced.atLineEnd_append (byte :: rest)
      rw [List.cons_append] at sameEnd ⊢
      rw [blankRun, blankRun, sameEnd, ih]

theorem startsToken_append_fence (fenced : Fenced fence) (byte : UInt8) :
    startsToken byte (text ++ fence) = startsToken byte text := by
  unfold startsToken nextIs
  rw [fenced.any_head?_append ⟨rfl, rfl⟩, fenced.any_head?_append ⟨rfl, rfl⟩,
    fenced.any_head?_append ⟨rfl, rfl⟩, fenced.any_head?_append ⟨rfl, rfl⟩]

theorem strayRun_append_fence (fenced : Fenced fence) :
    strayRun (text ++ fence) = strayRun text := by
  induction text with
  | nil =>
      cases fence with
      | nil => rfl
      | cons byte rest => rcases fenced with rfl | rfl <;> rfl
  | cons byte rest ih =>
      rw [List.cons_append, strayRun, strayRun, startsToken_append_fence fenced, ih]

theorem lineEndLength_append_fence (fenced : Fenced fence) :
    lineEndLength (text ++ fence) = lineEndLength text := by
  rcases text with _ | ⟨first, _ | ⟨second, rest⟩⟩
  · cases fence with
    | nil => rfl
    | cons byte rest => rcases fenced with rfl | rfl <;> rfl
  · cases fence with
    | nil => rfl
    | cons byte rest =>
        rcases fenced with rfl | rfl
        all_goals
          simp only [List.cons_append, List.nil_append]
          unfold lineEndLength
          split <;> simp_all
  · simp only [List.cons_append]
    unfold lineEndLength
    split <;> simp_all

theorem operator_append_fence (fenced : Fenced fence) (first : Char) (alone : Kind) :
    operator first alone (text ++ fence) = operator first alone text := by
  have none (byte : UInt8) (isBrace : byte = 0x7b ∨ byte = 0x7d) :
      double? first (Byte.char byte) = none := by
    unfold double?
    rcases isBrace with rfl | rfl
    all_goals
      split <;> first | rfl | (rename_i same; exact absurd same (by decide))
  cases text with
  | nil =>
      cases fence with
      | nil => rfl
      | cons byte rest => simp [operator, none byte fenced]
  | cons byte rest => rfl

theorem colon_append_fence (fenced : Fenced fence) (atLineStart : Bool) :
    colon atLineStart (text ++ fence) = colon atLineStart text := by
  cases atLineStart with
  | true => rfl
  | false =>
      cases text with
      | nil =>
          cases fence with
          | nil => rfl
          | cons byte rest => rcases fenced with rfl | rfl <;> rfl
      | cons next rest =>
          rw [List.cons_append, colon, colon, if_neg Bool.false_ne_true,
            if_neg Bool.false_ne_true]
          split
          · rfl
          · rfl
          · next isPlus =>
              obtain rfl : next = 0x2b := Byte.char_injective isPlus
              rw [← List.cons_append, run_append_fence ⟨rfl, rfl⟩ fenced]
          · next isMinus =>
              obtain rfl : next = 0x2d := Byte.char_injective isMinus
              rw [← List.cons_append, run_append_fence ⟨rfl, rfl⟩ fenced]
          · rfl

theorem closing?_append_of_some {quote : UInt8} {count : Nat} (fenced : Fenced fence)
    (found : closing? quote text = some count) : closing? quote (text ++ fence) = some count := by
  induction text generalizing count with
  | nil => contradiction
  | cons byte rest ih =>
      have sameEnd := fenced.atLineEnd_append (byte :: rest)
      rw [List.cons_append] at sameEnd ⊢
      rw [closing?] at found ⊢
      rw [sameEnd]
      split at found
      · contradiction
      · next goesOn =>
          rw [if_neg goesOn]
          split at found
          · next isQuote => rw [if_pos isQuote, found]
          · next other =>
              obtain ⟨later, behind, rfl⟩ := Option.map_eq_some_iff.mp found
              rw [if_neg other, ih behind]
              rfl

theorem closing?_append_of_ends {quote : UInt8} (fenced : Fenced fence)
    (unclosed : closing? quote text = none) (ends : lineLength text < text.length) :
    closing? quote (text ++ fence) = none := by
  induction text with
  | nil => contradiction
  | cons byte rest ih =>
      have sameEnd := fenced.atLineEnd_append (byte :: rest)
      rw [List.cons_append] at sameEnd ⊢
      rw [closing?] at unclosed ⊢
      rw [sameEnd]
      rw [lineLength] at ends
      split at unclosed
      · next ended => rw [if_pos ended]
      · next goesOn =>
          split at unclosed
          · contradiction
          · next other =>
              rw [if_neg goesOn, if_neg other,
                ih (by simpa using unclosed) (by simpa [goesOn] using ends)]
              rfl

theorem length_lt_of_closing? {quote : UInt8} {count : Nat} (fenced : Fenced fence)
    (unclosed : closing? quote text = none)
    (found : closing? quote (text ++ fence) = some count) :
    text.length < count := by
  induction text generalizing count with
  | nil =>
      cases fence with
      | nil => contradiction
      | cons byte rest =>
          rw [List.nil_append, closing?] at found
          split at found
          · contradiction
          · split at found
            · obtain rfl := Option.some.inj found
              exact Nat.one_pos
            · obtain ⟨later, -, rfl⟩ := Option.map_eq_some_iff.mp found
              exact Nat.succ_pos _
  | cons byte rest ih =>
      have sameEnd := fenced.atLineEnd_append (byte :: rest)
      rw [List.cons_append] at sameEnd found
      rw [closing?] at unclosed found
      rw [sameEnd] at found
      split at unclosed
      · next ended => simp [ended] at found
      · next goesOn =>
          rw [if_neg goesOn] at found
          split at unclosed
          · contradiction
          · next other =>
              rw [if_neg other] at found
              obtain ⟨later, behind, rfl⟩ := Option.map_eq_some_iff.mp found
              have further := ih (by simpa using unclosed) behind
              rw [List.length_cons]
              omega

/-- A scanner that takes no more than a text gives the same before every fence.  At the
end of a text it has to have come to an end by itself. -/
def EndsAtFence (text : Bytes) (scanner : Bytes → Kind × Nat) : Prop :=
  ∀ ⦃fence other : Bytes⦄, Fenced fence → Fenced other →
    (scanner (text ++ fence)).2 ≤ text.length →
      (fence = [] → (scanner text).1 ≠ .comment ∧ (scanner text).1 ≠ .errorToken) →
        scanner (text ++ other) = scanner (text ++ fence)

theorem endsAtFence_of_append {scanner : Bytes → Kind × Nat}
    (same : ∀ ⦃fence : Bytes⦄, Fenced fence → scanner (text ++ fence) = scanner text) :
    EndsAtFence text scanner :=
  fun _ _ fenced fenced' _ _ => (same fenced').trans (same fenced).symm

theorem comment_endsAtFence : EndsAtFence text fun rest => (.comment, lineLength rest) := by
  intro fence other fenced fenced' inside ended
  rcases Nat.lt_or_ge (lineLength text) text.length with ends | goesOn
  · simp only [fenced.lineLength_append ends, fenced'.lineLength_append ends]
  · have nonempty : fence ≠ [] := fun empty => (ended empty).1 rfl
    have longer := fenced.lineLength_pos nonempty
    dsimp only at inside
    rw [fenced.lineLength_append_of_not_ends goesOn] at inside
    omega

/-- A quote that is closed before the fence, or cannot be closed any more. -/
theorem quoted_append_fence {quote : UInt8} (fenced : Fenced fence) (fenced' : Fenced other)
    (inside : (closing? quote (text ++ fence)).getD (lineLength (text ++ fence)) ≤ text.length)
    (ended : fence = [] → (closing? quote text).isSome) :
    closing? quote (text ++ other) = closing? quote (text ++ fence) ∧
      (closing? quote (text ++ fence) = none →
        lineLength (text ++ other) = lineLength (text ++ fence)) := by
  cases found : closing? quote text with
  | some count =>
      rw [closing?_append_of_some fenced found, closing?_append_of_some fenced' found]
      exact ⟨rfl, fun none => absurd none (by simp)⟩
  | none =>
      rcases Nat.lt_or_ge (lineLength text) text.length with ends | goesOn
      · rw [closing?_append_of_ends fenced found ends, closing?_append_of_ends fenced' found ends,
          fenced.lineLength_append ends, fenced'.lineLength_append ends]
        exact ⟨rfl, fun _ => rfl⟩
      · have nonempty : fence ≠ [] := fun empty => by simpa [found] using ended empty
        have longer := fenced.lineLength_pos nonempty
        cases later : closing? quote (text ++ fence) with
        | some count =>
            have beyond := length_lt_of_closing? fenced found later
            rw [later, Option.getD_some] at inside
            omega
        | none =>
            rw [later, Option.getD_none, fenced.lineLength_append_of_not_ends goesOn] at inside
            omega

theorem stringLiteral_endsAtFence : EndsAtFence text stringLiteral := by
  intro fence other fenced fenced' inside ended
  have counts : (stringLiteral (text ++ fence)).2 =
      (closing? 0x22 (text ++ fence)).getD (lineLength (text ++ fence)) := by
    unfold stringLiteral
    cases closing? 0x22 (text ++ fence) <;> rfl
  obtain ⟨same, sameLength⟩ := quoted_append_fence fenced fenced' (counts ▸ inside) fun empty => by
    have noError := (ended empty).2
    unfold stringLiteral at noError
    cases found : closing? 0x22 text with
    | none => simp [found] at noError
    | some count => rfl
  unfold stringLiteral
  rw [same]
  cases found : closing? 0x22 (text ++ fence) with
  | some count => rfl
  | none => simp only [sameLength found]

theorem character_endsAtFence : EndsAtFence text character := by
  intro fence other fenced fenced' inside ended
  have quoteBehind (byte : UInt8) (rest : Bytes) {fence : Bytes} (fenced : Fenced fence) :
      (((byte :: rest) ++ fence).drop 1).head?.any (· == 0x27) = rest.head?.any (· == 0x27) :=
    fenced.any_head?_append ⟨rfl, rfl⟩ rest
  simp only [character_eq] at inside ended ⊢
  cases text with
  | nil =>
      -- The fence itself would be taken.
      have nonempty : fence ≠ [] := by
        rintro rfl
        exact (ended rfl).2 rfl
      have longer := fenced.lineLength_pos nonempty
      rw [List.nil_append] at inside
      split at inside
      · split at inside
        · next ends =>
            have noEnd := fenced.atLineEnd_append []
            rw [List.nil_append, ends] at noEnd
            contradiction
        · contradiction
      · cases found : closing? 0x27 fence with
        | none =>
            rw [found] at inside
            simp only [Option.getD_none, List.length_nil] at inside
            omega
        | some count =>
            have beyond := @length_lt_of_closing? [] fence 0x27 count fenced rfl found
            rw [found] at inside
            simp only [Option.getD_some, List.length_nil] at inside
            omega
  | cons byte rest =>
      rw [quoteBehind byte rest fenced] at inside ⊢
      rw [quoteBehind byte rest fenced', fenced.atLineEnd_append, fenced'.atLineEnd_append]
      split
      · rfl
      · next unquoted =>
          rw [if_neg unquoted] at inside
          obtain ⟨same, sameLength⟩ := quoted_append_fence fenced fenced' inside fun empty => by
            have noError := (ended empty).2
            rw [List.drop_one, List.tail_cons, if_neg unquoted] at noError
            exact absurd rfl noError
          rw [same]
          cases found : closing? 0x27 (byte :: rest ++ fence) with
          | some count => rfl
          | none => rw [sameLength found]

theorem word_endsAtFence {holds : UInt8 → Bool} (kind : Bytes → Kind)
    (noBrace : holds 0x7b = false ∧ holds 0x7d = false) :
    EndsAtFence text fun rest => (kind (rest.take (run holds rest)), run holds rest) := by
  apply endsAtFence_of_append
  intro fence fenced
  have inside : run holds text ≤ text.length := (List.takeWhile_prefix _).length_le
  simp only [run_append_fence noBrace fenced, List.take_append_of_le_length inside]

theorem stray_endsAtFence : EndsAtFence text stray :=
  endsAtFence_of_append fun _ fenced => congrArg (Prod.mk _) (strayRun_append_fence fenced)

theorem guarded_endsAtFence {holds : UInt8 → Bool} {scanner : Bytes → Kind × Nat}
    (noBrace : holds 0x7b = false ∧ holds 0x7d = false) (ends : EndsAtFence text scanner) :
    EndsAtFence text fun rest => if nextIs holds rest then scanner rest else stray rest := by
  intro fence other fenced fenced'
  have same {fence : Bytes} (fenced : Fenced fence) :
      nextIs holds (text ++ fence) = nextIs holds text :=
    fenced.any_head?_append noBrace text
  simp only [same fenced, same fenced']
  split
  · exact ends fenced fenced'
  · exact stray_endsAtFence fenced fenced'

theorem blank_endsAtFence : EndsAtFence text fun rest => (.whitespace, blankRun rest) :=
  endsAtFence_of_append fun _ fenced => congrArg (Prod.mk _) (blankRun_append_fence fenced)

theorem carriageReturn_endsAtFence :
    EndsAtFence text fun rest =>
      if rest.head? == some Byte.newline then (.eol, 1) else (.whitespace, blankRun rest) := by
  have heads (bytes : Bytes) :
      (bytes.head? == some Byte.newline) = bytes.head?.any (· == Byte.newline) := by
    cases bytes <;> rfl
  apply endsAtFence_of_append
  intro fence fenced
  have same : (text ++ fence).head?.any (· == Byte.newline) =
      text.head?.any (· == Byte.newline) := fenced.any_head?_append ⟨rfl, rfl⟩ text
  simp only [heads, same, blankRun_append_fence fenced]

theorem backslash_endsAtFence :
    EndsAtFence text fun rest =>
      if atLineEnd rest then (.lineContinuation, lineEndLength rest) else stray rest := by
  apply endsAtFence_of_append
  intro fence fenced
  simp only [fenced.atLineEnd_append, lineEndLength_append_fence fenced, stray,
    strayRun_append_fence fenced]

theorem Chooses.endsAtFence {dialect : Dialect} {atLineStart : Bool} {first : UInt8}
    {scanner : Bytes → Kind × Nat} (chosen : Chooses dialect atLineStart first scanner) :
    EndsAtFence text scanner := by
  have word (kind : Bytes → Kind) : EndsAtFence text fun rest =>
      (kind (rest.take (run Byte.continuesWord rest)), run Byte.continuesWord rest) :=
    word_endsAtFence kind ⟨rfl, rfl⟩
  cases chosen with
  | single | newline => exact fun _ _ _ _ _ _ => rfl
  | carriageReturn => exact carriageReturn_endsAtFence
  | blank => exact blank_endsAtFence
  | comment => exact comment_endsAtFence
  | backslash => exact backslash_endsAtFence
  | colon =>
      exact endsAtFence_of_append fun _ fenced => colon_append_fence fenced atLineStart
  | operator =>
      exact endsAtFence_of_append fun _ fenced => operator_append_fence fenced _ _
  | hexNumber | binaryNumber =>
      exact guarded_endsAtFence ⟨rfl, rfl⟩ (word_endsAtFence (fun _ => .number) ⟨rfl, rfl⟩)
  | character => exact character_endsAtFence
  | stringLiteral => exact stringLiteral_endsAtFence
  | localIdent => exact guarded_endsAtFence ⟨rfl, rfl⟩ (word fun _ => .localIdent)
  | dottedWord =>
      exact guarded_endsAtFence ⟨rfl, rfl⟩
        (word fun behind => Scan.dottedWord dialect (first :: behind))
  | number => exact word fun _ => .number
  | plainWord => exact word fun behind => Scan.plainWord dialect (first :: behind)
  | stray => exact stray_endsAtFence

theorem classify_endsAtFence (dialect : Dialect) (atLineStart : Bool) (first : UInt8) :
    EndsAtFence text (classify dialect atLineStart first) :=
  (chooses_classify dialect atLineStart first).endsAtFence

variable {dialect : Dialect} {atLineStart : Bool} {before more : List Token}

theorem scanFrom_append_fence (fenced : Fenced fence) (fenced' : Fenced other)
    (scanned : scanFrom dialect atLineStart 0 (text ++ fence) = before ++ more)
    (length : Token.totalLength before = text.length)
    (ended : fence = [] → ∀ token ∈ before, token.kind ≠ .comment ∧ token.kind ≠ .errorToken) :
    scanFrom dialect atLineStart 0 (text ++ other) =
      before ++ scanFrom dialect (stateBehind atLineStart before) 0 other := by
  induction before generalizing atLineStart text with
  | nil =>
      obtain rfl : text = [] := List.length_eq_zero_iff.mp length.symm
      rfl
  | cons token before ih =>
      obtain ⟨first, rest, rfl⟩ : ∃ first rest, text = first :: rest := by
        apply List.exists_cons_of_ne_nil
        rintro rfl
        have scannedToken : ∀ other ∈ token :: before, other.text ≠ [] := by
          intro other member
          have inScan : other ∈ scanFrom dialect atLineStart 0 ([] ++ fence) := by
            rw [scanned]
            exact List.mem_append_left _ member
          exact (isScanned_of_mem inScan).text_ne_nil
        exact List.cons_ne_nil _ _ (Token.eq_nil_of_totalLength scannedToken length)
      rw [List.cons_append, scanFrom_cons, List.cons_append] at scanned
      obtain ⟨isFirst, behind⟩ := List.cons.inj scanned
      have bounded := classify_le dialect atLineStart first (rest ++ fence)
      have covered : token.length =
          (classify dialect atLineStart first (rest ++ fence)).2 + 1 := by
        rw [← isFirst, firstToken, Token.length, List.length_cons, List.length_take,
          Nat.min_eq_left bounded]
      rw [Token.totalLength, covered, List.length_cons] at length
      have inside : (classify dialect atLineStart first (rest ++ fence)).2 ≤ rest.length := by
        omega
      have same : classify dialect atLineStart first (rest ++ other) =
          classify dialect atLineStart first (rest ++ fence) := by
        refine classify_endsAtFence dialect atLineStart first fenced fenced' inside fun empty => ?_
        have ends := ended empty token List.mem_cons_self
        rw [← isFirst, empty, List.append_nil] at ends
        exact ends
      have sameToken : firstToken dialect atLineStart first (rest ++ other) = token := by
        rw [← isFirst, firstToken, firstToken, same, List.take_append_of_le_length inside,
          List.take_append_of_le_length inside]
      rw [List.cons_append, scanFrom_cons, sameToken, same, List.drop_append_of_le_length inside,
        List.cons_append]
      rw [isFirst, List.drop_append_of_le_length inside] at behind
      refine congrArg _ (ih behind ?_ fun empty other member => ?_)
      · rw [List.length_drop]
        omega
      · exact ended empty other (List.mem_cons_of_mem _ member)

theorem scanFrom_leftBrace (dialect : Dialect) (atLineStart : Bool) (rest : Bytes) :
    scanFrom dialect atLineStart 0 (0x7b :: rest) =
      ⟨.leftBrace, [0x7b]⟩ :: scanFrom dialect false 0 rest :=
  rfl

theorem scanFrom_rightBrace (dialect : Dialect) (atLineStart : Bool) (rest : Bytes) :
    scanFrom dialect atLineStart 0 (0x7d :: rest) =
      ⟨.rightBrace, [0x7d]⟩ :: scanFrom dialect false 0 rest :=
  rfl

end Scan
end Asm6502
