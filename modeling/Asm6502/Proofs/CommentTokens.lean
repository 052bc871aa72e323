import Asm6502.Proofs.ScanLocality
import Asm6502.Proofs.ScannedKinds
import Asm6502.Proofs.TokenLines

/-!
# Comments reach to the end of the line

A comment takes every byte up to the end of its line.  So nothing but the line's end can
stand behind it, and no line has two.
-/

namespace Asm6502

theorem Bytes.drop_lineLength (text : Bytes) :
    text.drop (lineLength text) = [] ∨ atLineEnd (text.drop (lineLength text)) = true := by
  induction text with
  | nil => exact .inl rfl
  | cons byte rest ih =>
      rw [lineLength]
      split
      · next ends => exact .inr ends
      · exact ih

namespace Scan

variable {dialect : Dialect} {atLineStart : Bool} {text : Bytes} {token comment : Token}
  {before behind : List Token}

theorem kind_of_atLineEnd (ends : Bytes.atLineEnd text = true)
    (scanned : scanFrom dialect atLineStart 0 text = token :: behind) : token.kind = .eol := by
  unfold Bytes.atLineEnd at ends
  split at ends
  · rw [scanFrom_cons] at scanned
    rw [← (List.cons.inj scanned).1]
    rfl
  · rw [scanFrom_cons] at scanned
    rw [← (List.cons.inj scanned).1]
    rfl
  · contradiction

theorem kind_behind_comment
    (scanned : scanFrom dialect atLineStart 0 text = before ++ comment :: token :: behind)
    (isComment : comment.kind = .comment) : token.kind = .eol := by
  obtain ⟨state, here⟩ := exists_scanFrom_of_append scanned
  generalize List.flatMap Token.text _ = rest at here
  cases rest with
  | nil => contradiction
  | cons first rest =>
      rw [scanFrom_cons] at here
      obtain ⟨rfl, onward⟩ := List.cons.inj here
      have listed := classify_mem dialect state first rest
      have begins : Byte.char first = ';' :=
        eq_semicolon_of_mem (isComment ▸ listed)
      have length : (classify dialect state first rest).2 = Bytes.lineLength rest := by
        unfold classify
        rw [begins]
        rfl
      rw [length] at onward
      rcases Bytes.drop_lineLength rest with nothing | ends
      · rw [nothing] at onward
        contradiction
      · exact kind_of_atLineEnd ends onward

end Scan

namespace Token

variable {dialect : Dialect} {text : Bytes} {line front ends : List Token} {comment : Token}

theorem eol_behind_comment (member : line ∈ lines (Scan.scan dialect text))
    (split : line = front ++ comment :: ends) (isComment : comment.kind = .comment) :
    ∀ token ∈ ends, token.kind = .eol := by
  obtain ⟨before, after, cut⟩ := List.append_of_mem member
  have isLine := (lines_shape cut).1
  have whole : Scan.scan dialect text =
      (before.flatten ++ front) ++ comment :: (ends ++ after.flatten) := by
    rw [← flatten_lines (Scan.scan dialect text), cut, split]
    simp
  cases ends with
  | nil => simp
  | cons first more =>
      have isEnd : first.kind = .eol := Scan.kind_behind_comment whole isComment
      rcases List.eq_nil_or_concat more with rfl | ⟨body, final, rfl⟩
      · simp [isEnd]
      · have early : first ∈ line.dropLast := by
          have regrouped : line = (front ++ comment :: first :: body) ++ [final] := by
            rw [split]
            simp
          rw [regrouped, List.dropLast_concat]
          simp
        exact absurd isEnd (isLine.unbroken first early)

/-- A comment is the only one of its line, and only the line's end stands behind it. -/
theorem exists_split_comment (member : line ∈ lines (Scan.scan dialect text))
    (inside : comment ∈ line) (isComment : comment.kind = .comment) :
    ∃ front ends, line = front ++ comment :: ends ∧ (∀ token ∈ ends, token.kind = .eol) ∧
      ∀ token ∈ front, token.kind ≠ .comment := by
  obtain ⟨front, ends, split⟩ := List.append_of_mem inside
  refine ⟨front, ends, split, eol_behind_comment member split isComment, ?_⟩
  intro other otherIn otherComment
  obtain ⟨first, second, rfl⟩ := List.append_of_mem otherIn
  have regrouped : line = first ++ other :: (second ++ comment :: ends) := by
    rw [split]
    simp
  have isEnd := eol_behind_comment member regrouped otherComment comment (by simp)
  rw [isComment] at isEnd
  contradiction

end Token
end Asm6502
