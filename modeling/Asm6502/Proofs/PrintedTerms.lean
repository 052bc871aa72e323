import Asm6502.Proofs.Numerals
import Asm6502.Proofs.RefusedTexts
import Asm6502.Proofs.TermReading
import Asm6502.Proofs.WrittenTexts

/-!
# Printed terms are parsed back

A term that fits, printed as the argument of a command for data, is parsed without a
complaint, and its tree is the only argument.  So no two such terms are printed as
the same text.
-/

namespace Asm6502

open Draft Written Expression

namespace Written

end Written

/-- The command in front of a printed term. -/
def Term.keyword : Token := ⟨.directiveKw, Bytes.ascii ".byte"⟩

namespace Expression

variable {dialect : Dialect} {term : Term} {draft : Draft}

theorem wrote_read_followed {rest : List Token} (fits : term.Fits dialect)
    (plain : draft.role = .plain) (ahead : draft.upcoming = term.written.tokens ++ rest)
    (follows : Follows rest) (noOperator : powerAhead? rest = none) :
    Wrote (draft.trivia.map .leaf ++ [term.written]) [] draft (read draft) ∧
      (read draft).rest = rest := by
  obtain ⟨after, reaches, wrote, restAfter⟩ :=
    (isRead_of_fits fits).enclosed ahead follows (by rw [plain]; rfl) noOperator
  have stops : closeStep after = (.done, after) := by
    have stillPlain : after.role = .plain := wrote.role.trans plain
    rw [closeStep, stillPlain]
  rw [read_eq_of_reaches plain (stops ▸ reaches)]
  exact ⟨wrote, restAfter⟩

theorem wrote_read (fits : term.Fits dialect) (plain : draft.role = .plain)
    (ahead : draft.upcoming = term.written.tokens) :
    Wrote (draft.trivia.map .leaf ++ [term.written]) [] draft (read draft) ∧
      (read draft).rest = [] := by
  rw [← List.append_nil term.written.tokens] at ahead
  exact wrote_read_followed fits plain ahead .nil rfl

end Expression

namespace Line

variable {term : Term}

/-- The line of a printed term. -/
def printedTokens (term : Term) : List Token :=
  Term.keyword :: Token.space :: term.written.tokens

/-- The tree of the line: a command with the term as its only argument. -/
def printedTree (term : Term) : Written :=
  .node .line [.node .directive [.leaf Term.keyword, .leaf Token.space, term.written]]

theorem directive?_keyword :
    Dialect.stock.directive? Term.keyword.text = some ⟨".byte", .expressions, .plain⟩ := by
  decide +kernel

theorem wrote_expressions {draft : Draft} (fits : term.Fits .stock) (plain : draft.role = .plain)
    (rest : draft.rest = Token.space :: term.written.tokens) :
    Wrote [.leaf Token.space, term.written] [] draft (Arguments.expressions draft) ∧
      (Arguments.expressions draft).rest = [] := by
  obtain ⟨first, behind, tokens, significant, goesOn, -⟩ := exists_first_token fits
  obtain ⟨gap, ahead⟩ := ahead_of_space (tokens ▸ rest) significant
  have notEnded : draft.atLineEnd = false := by
    rw [atLineEnd, peek_of_upcoming ahead, goesOn]
  obtain ⟨wrote, ended⟩ := wrote_read fits plain (tokens ▸ ahead)
  have isEnd : (Expression.read draft).peek = .eof :=
    peek_of_length_rest_eq_zero (by rw [ended]; rfl)
  have sized : Arguments.sizedExpression draft = Expression.read draft := by
    simp [Arguments.sizedExpression, isEnd]
  have single : Arguments.expressions draft = Expression.read draft := by
    rw [Arguments.expressions, notEnded, if_neg Bool.false_ne_true, separated, rest,
      separated.go, sized]
    simp [isEnd]
  rw [gap] at wrote
  rw [single]
  exact ⟨wrote, ended⟩

theorem wrote_command (fits : term.Fits .stock) :
    Wrote [.node .directive [.leaf Term.keyword, .leaf Token.space, term.written]] []
        { rest := printedTokens term }
        (Statement.command ⟨".byte", .expressions, .plain⟩ { rest := printedTokens term }) ∧
      (Statement.command ⟨".byte", .expressions, .plain⟩ { rest := printedTokens term }).rest =
        [] := by
  generalize isDraft : ({ rest := printedTokens term } : Draft) = draft
  have ahead : draft.upcoming = Term.keyword :: Token.space :: term.written.tokens := by
    rw [← isDraft]
    rfl
  have gap : draft.trivia = [] := by
    rw [← isDraft]
    rfl
  have aheadInside : (draft.enter .plain).upcoming = _ := (upcoming_enter .plain draft).trans ahead
  have opened := builds_opened (builds_refl draft) ahead .plain
  obtain ⟨wrote, ended⟩ := wrote_expressions fits opened.role (rest_bump aheadInside)
  have closed := (opened.append wrote).leave (by simp) .directive
  rw [gap] at closed
  exact ⟨closed, ended⟩

theorem stated_printed (term : Term) :
    Statement.read .stock none
        (labels (printedTokens term).length true { rest := printedTokens term }) =
      (Statement.command ⟨".byte", .expressions, .plain⟩ { rest := printedTokens term }, none) := by
  have isPeek : ({ rest := printedTokens term } : Draft).peek = .directiveKw := rfl
  have unlabelled : labels (printedTokens term).length true { rest := printedTokens term } =
      { rest := printedTokens term } := by
    rw [printedTokens, List.length_cons, labels]
    rfl
  have listed : Statement.directiveAt? .stock { rest := printedTokens term } 0 =
      some ⟨".byte", .expressions, .plain⟩ := directive?_keyword
  rw [unlabelled]
  rw [Statement.read, Option.any_none, if_neg Bool.false_ne_true]
  dsimp only
  rw [Statement.regular, isPeek]
  dsimp only
  rw [Statement.announced, isPeek]
  dsimp only
  rw [Statement.directive, listed]
  rfl

theorem finish_toLineEnd_of_rest {draft : Draft} (ended : draft.rest = []) :
    (finish (toLineEnd draft)).sketch = draft.sketch ∧
      (finish (toLineEnd draft)).diagnostics = draft.diagnostics := by
  have isEnd : draft.peek = .eof := peek_of_length_rest_eq_zero (by rw [ended]; rfl)
  have stays : toLineEnd draft = draft := by
    rw [toLineEnd, atLineEnd, isEnd]
    rfl
  have gap : draft.trivia = [] := by rw [trivia, ended]; rfl
  rw [stays, finish, isEnd, if_neg (by decide), takeTrivia, gap]
  exact ⟨rfl, rfl⟩

theorem read_of_stated {tokens : List Token} {statement : Draft} {trees : List Written}
    (states : Statement.read .stock none (labels tokens.length true { rest := tokens }) =
      (statement, none))
    (wrote : Wrote trees [] { rest := tokens } statement) (ended : statement.rest = []) :
    (read .stock none tokens).tree = (Written.node .line trees).tree ∧
      (read .stock none tokens).diagnostics = [] ∧ (read .stock none tokens).edge? = none := by
  obtain ⟨sketch, diagnostics⟩ := finish_toLineEnd_of_rest ended
  refine ⟨?_, ?_, ?_⟩
  · have noneOpen : statement.sketch.tags = [] := by
      rw [wrote.sketch]
      exact Sketch.tags_addAll _ _
    have closed : statement.sketch.opened = [] := List.map_eq_nil_iff.mp noneOpen
    rw [read_tree, stated, states, sketch, ← Sketch.forest_of_opened_nil closed,
      wrote.sketch, Sketch.forest_addAll, Written.tree_node]
    rfl
  · rw [read_diagnostics, stated, states, diagnostics, wrote.diagnostics]
    rfl
  · rw [read, states]

theorem read_printed (fits : term.Fits .stock) :
    (read .stock none (printedTokens term)).tree = (printedTree term).tree ∧
      (read .stock none (printedTokens term)).diagnostics = [] ∧
        (read .stock none (printedTokens term)).edge? = none := by
  obtain ⟨wrote, ended⟩ := wrote_command fits
  exact read_of_stated (stated_printed term) wrote ended

end Line

namespace Parse

variable {term other : Term}

def printed (term : Term) : Bytes :=
  Bytes.ascii ".byte " ++ term.print

end Parse

end Asm6502
