import Asm6502.Proofs.LineRules

/-!
# What reading a line gives

The tree of a line has the line's tokens as its leaves, in order, and the line's
end as its last child.  Faults stand inside the line, and so does the command
word of a block that the line opens.
-/

namespace Asm6502

theorem Scan.IsScanned.kind_ne_eof {token : Token} (scanned : IsScanned token) :
    token.kind ≠ .eof := by
  intro isEof
  rcases scanned.kind_cases with inner | isEol
  · rw [isEof] at inner
    exact absurd inner (by decide)
  · rw [isEof] at isEol
    contradiction

namespace Line

open Draft

/-- The end of a line with the trivia before it is all that is left of it. -/
structure Finished (before after : Draft) : Prop where
  took : Took before.rest before after
  rest : after.rest = []
  tags : after.sketch.tags = before.sketch.tags
  diagnostics : after.diagnostics = before.diagnostics
  forest :
    ∃ ends, Tree.IsLineEnd ends ∧
      after.sketch.forest = before.takeTrivia.sketch.forest ++ ends

theorem finished_of_upcoming_nil {draft : Draft} (ahead : draft.upcoming = []) :
    Finished draft draft.takeTrivia := by
  have allTrivia : draft.trivia = draft.rest := by
    rw [← draft.trivia_append_upcoming, ahead, List.append_nil]
  refine ⟨allTrivia ▸ took_takeTrivia draft, ahead, ?_, rfl, [], .missing, ?_⟩
  · simp [takeTrivia]
  · rw [List.append_nil]

theorem finished_of_eol {draft : Draft} {token : Token}
    (scanned : Scan.IsScanned token) (isEol : token.kind = .eol)
    (ahead : draft.upcoming = [token]) : Finished draft draft.bump := by
  have whole : draft.trivia ++ [token] = draft.rest := by
    rw [← draft.trivia_append_upcoming, ahead]
  have positive : 0 < token.length := List.length_pos_iff.mpr scanned.text_ne_nil
  refine ⟨whole ▸ took_bump ahead, ?_, tags_bump draft, ?_,
    [.token .eol token.length], .token positive, ?_⟩
  · rw [bump_of_upcoming ahead]
  · rw [bump_of_upcoming ahead]
  · simp [bump_of_upcoming ahead, takeTrivia, leaf, isEol]

theorem unbroken_dropLast_of_suffix {rest tokens : List Token} (suffix : rest <:+ tokens)
    (unbroken : Token.Unbroken tokens.dropLast) : Token.Unbroken rest.dropLast := by
  obtain ⟨taken, rfl⟩ := suffix
  intro token member
  apply unbroken token
  cases rest with
  | nil => simp at member
  | cons first others =>
      rw [List.dropLast_append_of_ne_nil (by simp)]
      exact List.mem_append_right _ member

/-- Behind the trivia that are left of a line, it ends, or the text does. -/
theorem upcoming_of_ended {draft : Draft}
    (scanned : ∀ token ∈ draft.rest, Scan.IsScanned token)
    (unbroken : Token.Unbroken draft.rest.dropLast) (ended : draft.atLineEnd = true) :
    draft.upcoming = [] ∨
      ∃ token, draft.upcoming = [token] ∧ Scan.IsScanned token ∧ token.kind = .eol := by
  cases ahead : draft.upcoming with
  | nil => exact .inl rfl
  | cons token behind =>
      have restEq : draft.rest = draft.trivia ++ token :: behind := by
        rw [← ahead, trivia_append_upcoming]
      have tokenScanned := scanned token (by simp [restEq])
      have isEol : token.kind = .eol := by
        rcases tokenScanned.kind_cases with inner | isEol
        · rw [atLineEnd, peek_of_upcoming ahead] at ended
          rw [endsLine_eq_false inner.2 tokenScanned.kind_ne_eof] at ended
          contradiction
        · exact isEol
      rcases List.eq_nil_or_concat behind with rfl | ⟨inner, last, rfl⟩
      · exact .inr ⟨token, rfl, tokenScanned, isEol⟩
      · have early : token ∈ draft.rest.dropLast := by
          rw [restEq, List.concat_eq_append, ← List.cons_append, ← List.append_assoc,
            List.dropLast_concat]
          simp
        exact absurd isEol (unbroken token early)

theorem finished_finish {draft : Draft}
    (scanned : ∀ token ∈ draft.rest, Scan.IsScanned token)
    (unbroken : Token.Unbroken draft.rest.dropLast)
    (ended : draft.atLineEnd = true) : Finished draft (finish draft) := by
  unfold finish
  rcases upcoming_of_ended scanned unbroken ended with ahead | ⟨token, ahead, isScanned, isEol⟩
  · have atEnd : draft.peek = .eof := by rw [peek_eq, ahead]; rfl
    rw [atEnd, if_neg (by decide)]
    exact finished_of_upcoming_nil ahead
  · rw [peek_of_upcoming ahead, isEol, if_pos rfl]
    exact finished_of_eol isScanned isEol ahead

/-- Move on to the line's end; what stands before it is an error. -/
def toLineEnd (draft : Draft) : Draft :=
  if draft.atLineEnd then draft
  else draft.recover .expectedEndOfLine fun _ => false

theorem lineEnd_eq (draft : Draft) : lineEnd draft = finish (toLineEnd draft) := by
  unfold lineEnd toLineEnd
  split <;> rfl

theorem moves_toLineEnd (draft : Draft) : Moves draft (toLineEnd draft) := by
  unfold toLineEnd
  split
  · exact .stay draft
  · exact moves_recover _ _ draft

theorem atLineEnd_toLineEnd (draft : Draft) : (toLineEnd draft).atLineEnd = true := by
  unfold toLineEnd
  split
  · assumption
  · exact atLineEnd_recover _ draft

section

variable (dialect : Dialect) (block? : Option BlockKind) {tokens : List Token}

/-- A line whose labels and statement have been read, at its end. -/
def stated (tokens : List Token) : Draft :=
  toLineEnd
    (Statement.read dialect block?
      (labels tokens.length true { rest := tokens })).1

theorem read_tree (tokens : List Token) :
    (read dialect block? tokens).tree =
      .node .line (finish (stated dialect block? tokens)).sketch.trees := by
  rw [read, stated, ← lineEnd_eq]

theorem read_diagnostics (tokens : List Token) :
    (read dialect block? tokens).diagnostics =
      (finish (stated dialect block? tokens)).diagnostics.reverse := by
  rw [read, stated, ← lineEnd_eq]

theorem moves_stated (tokens : List Token) :
    Moves { rest := tokens } (stated dialect block? tokens) :=
  (moves_labels _ _ _).trans
    ((Statement.moves_read dialect block? _).trans (moves_toLineEnd _))

variable (scanned : ∀ token ∈ tokens, Scan.IsScanned token)
include scanned

omit dialect block? in
theorem inline_start : Inline { rest := tokens } where
  scanned := scanned
  inside tree member := by simp [Sketch.forest] at member

theorem finished_stated (isLine : Token.IsLine tokens) :
    Finished (stated dialect block? tokens) (finish (stated dialect block? tokens)) := by
  have moves := moves_stated dialect block? tokens
  apply finished_finish (moves.inline (inline_start scanned)).scanned
  · exact unbroken_dropLast_of_suffix moves.rest_suffix isLine.unbroken
  · exact atLineEnd_toLineEnd _

/-- What is said here of the reading of a line is all that the reading of a text
relies on. -/
structure Shape (tokens : List Token) (line : Line) : Prop where
  tree : Tree.IsLine line.tree
  leaves : line.tree.leaves = tokens.map Token.pair
  reported :
    ∀ diagnostic ∈ line.diagnostics,
      diagnostic.span.Within (Token.totalLength tokens) ∧
        (Token.EndsLine tokens → diagnostic.start < Token.totalLength tokens)
  opens :
    ∀ block keyword, line.edge? = some (.opens block keyword) →
      keyword.Within (Token.totalLength tokens) ∧
        keyword.start < Token.totalLength tokens

/-- Every node that a line opens is closed at its end. -/
theorem tags_stated (isLine : Token.IsLine tokens) :
    (finish (stated dialect block? tokens)).sketch.tags = [] := by
  rw [(finished_stated dialect block? scanned isLine).tags,
    (moves_stated dialect block? tokens).tags]
  rfl

theorem trees_stated (isLine : Token.IsLine tokens) :
    (finish (stated dialect block? tokens)).sketch.trees =
      (finish (stated dialect block? tokens)).sketch.forest :=
  (Sketch.forest_of_opened_nil
    (List.map_eq_nil_iff.mp (tags_stated dialect block? scanned isLine))).symm

theorem leaves_read (isLine : Token.IsLine tokens) :
    (read dialect block? tokens).tree.leaves = tokens.map Token.pair := by
  obtain ⟨taken, -, took⟩ := (moves_stated dialect block? tokens).took
  have whole := took.trans (finished_stated dialect block? scanned isLine).took
  have allTaken : tokens = taken ++ (stated dialect block? tokens).rest := took.rest
  rw [read_tree, trees_stated dialect block? scanned isLine, Tree.leaves, whole.leaves,
    ← allTaken]
  rfl

theorem isLine_read (isLine : Token.IsLine tokens) :
    Tree.IsLine (read dialect block? tokens).tree := by
  obtain ⟨ends, ending, forest⟩ := (finished_stated dialect block? scanned isLine).forest
  have shape := (moves_stated dialect block? tokens).inline (inline_start scanned)
  have leaves := leaves_read dialect block? scanned isLine
  rw [read_tree, trees_stated dialect block? scanned isLine, forest] at leaves ⊢
  refine .intro shape.takeTrivia.inside ending ?_
  intro empty
  rw [empty] at leaves
  exact isLine.nonempty (List.map_eq_nil_iff.mp leaves.symm)

theorem reported_read (isLine : Token.IsLine tokens) {diagnostic : Diagnostic}
    (member : diagnostic ∈ (read dialect block? tokens).diagnostics) :
    diagnostic.span.Within (Token.totalLength tokens) ∧
      (Token.EndsLine tokens → diagnostic.start < Token.totalLength tokens) := by
  have moves := moves_stated dialect block? tokens
  have reported := moves.reported scanned (by simp [Reported])
  have start : (Draft.total { rest := tokens }) = Token.totalLength tokens :=
    Nat.zero_add _
  rw [read_diagnostics, List.mem_reverse,
    (finished_stated dialect block? scanned isLine).diagnostics] at member
  obtain ⟨within, beforeEnd⟩ := reported diagnostic member
  rw [moves.total, start] at within beforeEnd
  obtain ⟨taken, unbroken, took⟩ := moves.took
  exact ⟨within, fun ends => beforeEnd (endsLine_of_took unbroken took ends)⟩

theorem opens_read {block : BlockKind} {keyword : Span}
    (found : (read dialect block? tokens).edge? = some (.opens block keyword)) :
    keyword.Within (Token.totalLength tokens) ∧
      keyword.start < Token.totalLength tokens := by
  obtain ⟨start, later, stands, rfl⟩ :=
    Statement.opens_read dialect block? _ block keyword found
  have moves := (moves_labels tokens.length true { rest := tokens }).trans later
  have total : start.total = Token.totalLength tokens :=
    moves.total.trans (Nat.zero_add _)
  obtain ⟨token, behind, ahead, -⟩ :=
    upcoming_of_not_atLineEnd (not_atLineEnd_of_peek stands rfl)
  rw [← total]
  exact ⟨nextSpan_within start,
    nextSpan_start_lt (moves.inline (inline_start scanned)).scanned ahead⟩

/-- Reading a line gives a line, whatever its tokens are. -/
theorem shape_read (isLine : Token.IsLine tokens) :
    Shape tokens (read dialect block? tokens) where
  tree := isLine_read dialect block? scanned isLine
  leaves := leaves_read dialect block? scanned isLine
  reported _ member := reported_read dialect block? scanned isLine member
  opens _ _ found := opens_read dialect block? scanned found

end

end Line
end Asm6502
