import Asm6502.Proofs.Passages

/-!
# Passages of a text

The passages of a text tile it.  The first passage is followed by the passages
of what stands behind it, and as long as something stands there, what it is has
no influence on the first passage.
-/

namespace Asm6502

namespace Scan

open Token

variable (dialect : Dialect)

theorem totalLength_scan (text : Bytes) : totalLength (scan dialect text) = text.length := by
  rw [totalLength_eq_length_flatMap, scan, flatMap_text_scanFrom]

theorem lines_scan_shape {text : Bytes} {line : List Token}
    (member : line ∈ lines (scan dialect text)) :
    IsLine line ∧ ∀ token ∈ line, IsScanned token := by
  obtain ⟨before, after, cut⟩ := List.append_of_mem member
  refine ⟨(lines_shape cut).1, ?_⟩
  intro token tokenIn
  have scanned : token ∈ scan dialect text := by
    rw [← flatten_lines (scan dialect text)]
    exact List.mem_flatten.mpr ⟨line, member, tokenIn⟩
  exact isScanned_of_mem_scan scanned

theorem lines_scan_drop {text : Bytes} {own behind : List (List Token)}
    (cut : lines (scan dialect text) = own ++ behind) :
    lines (scan dialect (text.drop (totalLength own.flatten))) = behind := by
  induction own generalizing text with
  | nil => exact cut
  | cons line own ih =>
      have nonempty : text ≠ [] := by
        rintro rfl
        simp [scan, scanFrom, lines] at cut
      rw [lines_scan dialect nonempty] at cut
      obtain ⟨rfl, rest⟩ := List.cons.inj cut
      rw [List.flatten_cons, totalLength_append, ← List.drop_drop]
      exact ih rest

end Scan

namespace Reading

open Token

variable {dialect : Dialect}

theorem passagesFrom_eq_nil {reading : Reading} {lines : List (List Token)}
    (none : passagesFrom dialect reading lines = []) : lines = [] := by
  induction lines generalizing reading with
  | nil => rfl
  | cons line lines ih =>
      rw [passagesFrom_cons] at none
      split at none
      · contradiction
      · next isOpen =>
          obtain rfl := ih none
          simp [passagesFrom, isOpen] at none

theorem passages_eq_nil_iff (dialect : Dialect) {text : Bytes} :
    passages dialect text = [] ↔ text = [] := by
  constructor
  · intro none
    have noTokens := lines_eq_nil_iff.mp (passagesFrom_eq_nil none)
    have tiled := Scan.flatMap_text_scanFrom dialect true text
    rw [← Scan.scan, noTokens] at tiled
    exact tiled.symm
  · rintro rfl
    rfl

theorem IsPassage.length_tree {own : List (List Token)} {tree : Tree}
    {passage : Reading} (whole : IsPassage own tree passage) :
    tree.length = passage.offset := by
  have leaves := whole.holds.leaves
  rw [whole.sketch] at leaves
  have alone : Tree.allLeaves [tree] = own.flatten.map Token.pair := leaves
  have total := Tree.leafLength_allLeaves [tree]
  rw [alone, Tree.leafLength_map_pair, ← whole.offset] at total
  simpa [Tree.totalLength] using total.symm

theorem IsPassage.isPassage_tree {own : List (List Token)} {tree : Tree}
    {passage : Reading} (whole : IsPassage own tree passage) : Tree.IsPassage tree := by
  apply whole.holds.shape
  rw [whole.sketch]
  simp [Sketch.forest]

theorem IsPassage.offset_pos {own : List (List Token)} {tree : Tree}
    {passage : Reading} (whole : IsPassage own tree passage) : 0 < passage.offset := by
  rw [← whole.length_tree]
  exact whole.isPassage_tree.length_pos

/-- The first passage of a text and what stands behind it. -/
structure FirstPassage (dialect : Dialect) (text : Bytes) (own : List (List Token))
    (tree : Tree) (passage : Reading) : Prop where
  whole : IsPassage own tree passage
  lines : lines (Scan.scan dialect text) =
    own ++ lines (Scan.scan dialect (text.drop passage.offset))
  offset_le : passage.offset ≤ text.length
  ends : text.drop passage.offset ≠ [] → EndsLine own.flatten
  stable : text.drop passage.offset ≠ [] → ∀ more,
    passages dialect (text.take passage.offset ++ more) =
      passage :: passages dialect more

theorem stateBehind_of_endsLine {tokens : List Token} (ends : EndsLine tokens)
    (atLineStart : Bool) : Scan.stateBehind atLineStart tokens = true := by
  obtain ⟨body, last, rfl, isEol⟩ := ends
  rw [Scan.stateBehind, List.foldl_append, List.foldl_cons, List.foldl_nil, isEol]
  rfl

/-- A text that is cut behind a line end is scanned the same whatever stands
behind the cut. -/
theorem scan_append_of_endsLine {text behind : Bytes} {tokens : List Token}
    (split : Scan.scan dialect (text ++ behind) =
      tokens ++ Scan.scan dialect behind)
    (ends : EndsLine tokens) (more : Bytes) :
    Scan.scan dialect (text ++ more) = tokens ++ Scan.scan dialect more := by
  have ownText : tokens.flatMap Token.text = text := by
    have tiled := Scan.flatMap_text_scanFrom dialect true (text ++ behind)
    rw [← Scan.scan, split, List.flatMap_append, Scan.scan,
      Scan.flatMap_text_scanFrom] at tiled
    exact List.append_cancel_right tiled
  have newline : ∀ byte, text.getLast? = some byte → byte = Byte.newline := by
    intro byte isLast
    obtain ⟨body, last, rfl, isEol⟩ := ends
    have lastIn : last ∈ Scan.scan dialect (text ++ behind) := by
      rw [split]
      simp
    have lastScanned := Scan.isScanned_of_mem_scan lastIn
    rw [← ownText, List.flatMap_append, List.flatMap_singleton,
      List.getLast?_append, lastScanned.ends_with_newline isEol] at isLast
    simpa using isLast.symm
  have ownScan : Scan.scan dialect text = tokens := by
    have whole := Scan.scanFrom_append dialect true text behind newline
    rw [← Scan.scan, split] at whole
    refine (append_inj_of_totalLength whole ?_ ?_).1.symm
    · rw [← Scan.scan, Scan.totalLength_scan, totalLength_eq_length_flatMap, ownText]
    · intro token member
      exact (Scan.isScanned_of_mem_scan (split ▸ member)).text_ne_nil
  have both := Scan.scanFrom_append dialect true text more newline
  rw [← Scan.scan, ← Scan.scan, ownScan, stateBehind_of_endsLine ends] at both
  exact both

theorem lines_scan_append_of_endsLine {text behind : Bytes} {own : List (List Token)}
    (cut : lines (Scan.scan dialect (text ++ behind)) =
      own ++ lines (Scan.scan dialect behind))
    (ends : EndsLine own.flatten) (more : Bytes) :
    lines (Scan.scan dialect (text ++ more)) =
      own ++ lines (Scan.scan dialect more) := by
  have split : Scan.scan dialect (text ++ behind) =
      own.flatten ++ Scan.scan dialect behind := by
    rw [← flatten_lines (Scan.scan dialect (text ++ behind)), cut, List.flatten_append,
      flatten_lines]
  have ownLines : lines own.flatten = own := by
    rw [split, lines_append (.inr ends)] at cut
    exact List.append_cancel_right cut
  rw [scan_append_of_endsLine split ends, lines_append (.inr ends), ownLines]

theorem firstPassage_of_cons {text : Bytes} {passage : Reading} {others : List Reading}
    (cut : passages dialect text = passage :: others) :
    (∃ own tree, FirstPassage dialect text own tree passage) ∧
      others = passages dialect (text.drop passage.offset) := by
  have shapes : ∀ line ∈ lines (Scan.scan dialect text),
      IsLine line ∧ ∀ token ∈ line, Scan.IsScanned token :=
    fun _ member => Scan.lines_scan_shape dialect member
  obtain ⟨own, behind, tree, split, whole, rest, stable⟩ :=
    exists_cut dialect cut shapes reads_empty underway_empty
  rw [List.nil_append] at whole
  have behindLines := Scan.lines_scan_drop dialect split
  rw [← whole.offset] at behindLines
  have total : text.length = passage.offset + (text.drop passage.offset).length := by
    rw [← Scan.totalLength_scan dialect text, ← flatten_lines (Scan.scan dialect text),
      split, List.flatten_append, ← behindLines, flatten_lines, totalLength_append,
      Scan.totalLength_scan, whole.offset]
  have followed : text.drop passage.offset ≠ [] → behind ≠ [] := by
    intro more none
    apply more
    apply (passages_eq_nil_iff dialect).mp
    rw [passages, behindLines, none]
    rfl
  have front : own ≠ [] := by
    rintro rfl
    have positive := whole.offset_pos
    rw [whole.offset] at positive
    exact absurd positive (by simp [totalLength])
  have ends : text.drop passage.offset ≠ [] → EndsLine own.flatten :=
    fun more => endsLine_flatten split front (followed more)
  refine ⟨⟨own, tree, whole, ?_, ?_, ends, ?_⟩, ?_⟩
  · rw [split, behindLines]
  · omega
  · -- The lines of the passage scan alike on their own, so they end it in any text.
    intro nonempty more
    have ownCut : lines (Scan.scan dialect
        (text.take passage.offset ++ text.drop passage.offset)) =
          own ++ lines (Scan.scan dialect (text.drop passage.offset)) := by
      rw [List.take_append_drop, split, behindLines]
    rw [passages, lines_scan_append_of_endsLine ownCut (ends nonempty),
      stable (followed nonempty)]
    rfl
  · rw [rest, passages, behindLines]

/-- A text is empty, or a passage and what stands behind it. -/
theorem passagesInduct (dialect : Dialect) {motive : Bytes → Prop} (nil : motive [])
    (cons : ∀ text own tree passage, FirstPassage dialect text own tree passage →
      passages dialect text = passage :: passages dialect (text.drop passage.offset) →
        motive (text.drop passage.offset) → motive text)
    (text : Bytes) : motive text := by
  induction lengthEq : text.length using Nat.strongRecOn generalizing text with
  | ind length ih =>
      cases cut : passages dialect text with
      | nil =>
          rw [passages_eq_nil_iff] at cut
          exact cut ▸ nil
      | cons passage others =>
          obtain ⟨⟨own, tree, first⟩, rfl⟩ := firstPassage_of_cons cut
          have positive := first.whole.offset_pos
          have inside := first.offset_le
          have shorter : (text.drop passage.offset).length < length := by
            rw [List.length_drop]
            omega
          exact cons text own tree passage first cut (ih _ shorter _ rfl)

end Reading
end Asm6502
