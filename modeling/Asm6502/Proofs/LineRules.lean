import Asm6502.Line
import Asm6502.Proofs.ExpressionMoves

/-!
# The rules of a line make moves

Arguments, operands, statements and labels are composed of the moves of a draft.
A line is read by such moves up to its end, and then the end is taken.
-/

namespace Asm6502

open Draft

namespace Arguments

theorem rule_sizedExpression : Rule sizedExpression := by
  intro draft plain
  have read := Expression.rule_read draft plain
  unfold sizedExpression
  dsimp only
  split
  · next colon =>
      exact read.trans ((moves_bump_of_peek colon rfl).trans (moves_expect _ rfl _ _))
  · exact read

theorem rule_expressions : Rule expressions := by
  intro draft plain
  unfold expressions
  split
  · exact .stay draft
  · exact moves_separated rule_sizedExpression draft plain

theorem moves_sign (draft : Draft) : Moves draft (sign draft) := by
  unfold sign
  split
  · next stands => exact moves_bump_of_peek stands rfl
  · next stands => exact moves_bump_of_peek stands rfl
  · exact .stay draft

theorem rule_words : Rule words := by
  intro draft plain
  unfold words
  split
  · exact .stay draft
  · apply moves_separated _ draft plain
    intro item _
    exact (moves_expect _ rfl _ item).trans (moves_sign _)

theorem moves_toggle (draft : Draft) : Moves draft (toggle draft) := by
  unfold toggle
  split
  · next stands => exact moves_bump_of_peek stands rfl
  · exact moves_sign draft

theorem rule_parameter : Rule parameter := by
  intro draft _
  unfold parameter
  split
  · next stands => exact moves_bump_of_peek stands rfl
  · next stands => exact moves_bump_of_peek stands rfl
  · next stands => exact moves_bump_of_peek stands rfl
  · exact .error _ draft

theorem rule_macroHeader : Rule macroHeader := by
  intro draft plain
  unfold macroHeader
  split
  · next stands =>
      have named := moves_bump_of_peek stands rfl
      dsimp only
      split
      · exact named
      · exact named.andThen plain (moves_separated rule_parameter)
  · exact .error _ draft

theorem moves_parameters {draft : Draft} (plain : draft.role = .plain)
    (goesOn : draft.atLineEnd = false) : Moves draft (parameters draft) := by
  have opened := Moves.bump goesOn
  unfold parameters
  refine Moves.trans ?_ (moves_expect _ rfl _ _)
  split
  · exact opened
  · exact opened.andThen plain (moves_separated rule_parameter)

theorem moves_replacement (draft : Draft) : Moves draft (replacement draft) := by
  unfold replacement
  split
  · exact .stay draft
  · apply moves_node (by decide)
    intro inner _ _
    exact moves_takeUntil _ inner

theorem rule_definition : Rule definition := by
  intro draft plain
  unfold definition
  split
  · next stands =>
      have named := moves_bump_of_peek stands rfl
      refine named.trans (Moves.trans ?_ (moves_replacement _))
      split
      · next opensList =>
          simp only [Option.any_eq_true, beq_iff_eq] at opensList
          obtain ⟨token, next, isParen⟩ := opensList
          obtain ⟨behind, restEq⟩ := List.head?_eq_some_iff.mp next
          have ahead : draft.bump.upcoming = token :: behind :=
            upcoming_of_rest restEq (by rw [Token.isTrivia, isParen]; rfl)
          apply moves_parameters
          · rw [named.role, plain]
          · exact not_atLineEnd_of_peek (peek_of_upcoming ahead) (by rw [isParen]; rfl)
      · exact .stay _
  · exact .error _ draft

theorem rule_read (shape : ArgumentShape) : Rule (read shape) := by
  cases shape with
  | none => exact fun draft _ => .stay draft
  | expressions => exact rule_expressions
  | assignment => exact rule_expressions
  | toggle => exact fun draft _ => moves_toggle draft
  | words => exact rule_words
  | macroHeader => exact rule_macroHeader
  | define => exact rule_definition

end Arguments

namespace Operand

theorem moves_index (cause : Cause) (draft : Draft) :
    Moves draft (index cause draft) := by
  unfold index
  split
  · next comma => exact (moves_bump_of_peek comma rfl).trans (moves_expect _ rfl _ _)
  · exact .stay draft

theorem moves_size (draft : Draft) :
    Moves draft (if hasSize draft then draft.bump.bump else draft) := by
  split
  · next size =>
      simp only [hasSize, Bool.and_eq_true, Bool.or_eq_true, beq_iff_eq] at size
      obtain ⟨⟨stands, colon⟩, -⟩ := size
      apply moves_bump_bump
      · rcases stands with ident | register
        · exact not_atLineEnd_of_peek ident rfl
        · exact not_atLineEnd_of_peek register rfl
      · rw [colon]
        rfl
  · exact .stay draft

theorem rule_address : Rule address := by
  intro draft plain
  have sized := moves_size draft
  unfold address
  generalize (if hasSize draft then draft.bump.bump else draft) = start at sized ⊢
  refine Moves.trans ?_ (moves_index _ _)
  split
  · next paren =>
      simp only [Bool.and_eq_true, decide_eq_true_eq] at paren
      have opened := sized.trans (moves_bump_of_peek paren.1 rfl)
      have read := opened.andThen plain Expression.rule_read
      exact read.trans ((moves_index _ _).trans (moves_expect _ rfl _ _))
  · exact sized.andThen plain Expression.rule_read

theorem rule_read : Rule read := by
  intro draft _
  unfold read
  split
  · exact .stay draft
  · apply moves_node (by decide)
    intro inner plain _
    split
    · next hash => exact (moves_bump_of_peek hash rfl).andThen plain Expression.rule_read
    · next register =>
        split
        · exact moves_bump_of_peek register rfl
        · exact rule_address inner plain
    · exact rule_address inner plain

end Operand

namespace Statement

variable (dialect : Dialect) (block? : Option BlockKind)

theorem kindAt_of_directiveAt? {dialect : Dialect} {draft : Draft} {index : Nat}
    {directive : Directive} (found : directiveAt? dialect draft index = some directive) :
    draft.kindAt index = .directiveKw := by
  unfold directiveAt? at found
  split at found
  · assumption
  · contradiction

theorem moves_command {draft : Draft} (directive : Directive)
    (goesOn : draft.atLineEnd = false) : Moves draft (command directive draft) := by
  apply moves_node (by decide)
  intro inner plain ahead
  have word : Moves inner inner.bump :=
    .bump (by rw [atLineEnd_of_upcoming ahead, goesOn])
  exact word.andThen plain (Arguments.rule_read _)

theorem moves_directive (draft : Draft) :
    Moves draft (directive dialect block? draft).1 := by
  unfold directive
  split
  · exact moves_recover _ _ draft
  · next found =>
      split
      · exact moves_recover _ _ draft
      · exact moves_command _ (not_atLineEnd_of_peek (kindAt_of_directiveAt? found) rfl)

theorem moves_instruction {draft : Draft} (goesOn : draft.atLineEnd = false) :
    Moves draft (instruction draft) := by
  apply moves_node (by decide)
  intro inner plain ahead
  have word : Moves inner inner.bump :=
    .bump (by rw [atLineEnd_of_upcoming ahead, goesOn])
  exact word.andThen plain Operand.rule_read

theorem endsLine_kindAt_one {draft : Draft} (assigns : isAssignment dialect draft = true) :
    (draft.kindAt 1).endsLine = false := by
  simp only [isAssignment, Bool.or_eq_true, beq_iff_eq, Option.any_eq_true] at assigns
  rcases assigns with (eq | colonEq) | ⟨directive, found, -⟩
  · rw [eq]
    rfl
  · rw [colonEq]
    rfl
  · rw [kindAt_of_directiveAt? found]
    rfl

theorem moves_assignment {draft : Draft} (goesOn : draft.atLineEnd = false)
    (assigns : isAssignment dialect draft = true) :
    Moves draft (assignment draft) := by
  apply moves_node (by decide)
  intro inner plain ahead
  have head : Moves inner inner.bump.bump := by
    apply moves_bump_bump
    · rw [atLineEnd_of_upcoming ahead, goesOn]
    · rw [kindAt_of_upcoming ahead, endsLine_kindAt_one dialect assigns]
  exact head.andThen plain Expression.rule_read

theorem moves_rawArgument (draft : Draft) : Moves draft (rawArgument draft) := by
  apply moves_node (by decide)
  intro inner _ _
  exact moves_takeTokens _ _ inner

theorem moves_macroCall {draft : Draft} (goesOn : draft.atLineEnd = false) :
    Moves draft (macroCall draft) := by
  apply moves_node (by decide)
  intro inner plain ahead
  have named : Moves inner inner.bump :=
    .bump (by rw [atLineEnd_of_upcoming ahead, goesOn])
  dsimp only
  split
  · exact named
  · apply named.andThen plain
    apply moves_separated
    intro item _
    dsimp only
    split
    · exact .stay item
    · exact moves_rawArgument item

theorem rule_fieldValue : Rule (fieldValue dialect) := by
  intro draft plain
  unfold fieldValue
  split
  · next eq => exact (moves_bump_of_peek eq rfl).andThen plain Expression.rule_read
  · split
    · next directive found =>
        have found := (Option.filter_eq_some_iff.mp found).1
        exact moves_command _ (not_atLineEnd_of_peek (kindAt_of_directiveAt? found) rfl)
    · exact .stay draft

theorem moves_field? {draft after : Draft} (read : field? dialect draft = some after) :
    Moves draft after := by
  unfold field? at read
  split at read
  · next stands =>
      obtain ⟨directive, -, rfl⟩ := Option.map_eq_some_iff.mp read
      apply moves_node (by decide)
      intro inner _ ahead
      apply moves_command
      rw [atLineEnd_of_upcoming ahead]
      exact not_atLineEnd_of_peek stands rfl
  · next stands =>
      obtain rfl := Option.some.inj read
      apply moves_node (by decide)
      intro inner plain ahead
      have named : Moves inner inner.bump := by
        apply Moves.bump
        rw [atLineEnd_of_upcoming ahead]
        exact not_atLineEnd_of_peek stands rfl
      exact named.andThen plain (rule_fieldValue dialect)
  · contradiction

theorem moves_announced (draft : Draft) :
    Moves draft (announced dialect block? draft).1 := by
  unfold announced
  split
  · exact moves_directive dialect block? draft
  · next stands => exact moves_instruction (not_atLineEnd_of_peek stands rfl)
  · exact .stay draft

theorem moves_regular (draft : Draft) : Moves draft (regular dialect block? draft).1 := by
  unfold regular
  split
  · exact .stay draft
  · exact .stay draft
  · exact moves_announced dialect block? draft
  · exact moves_announced dialect block? draft
  · next stands =>
      have goesOn := not_atLineEnd_of_peek stands rfl
      dsimp only
      split
      · next assigns => exact moves_assignment dialect goesOn assigns
      · exact moves_macroCall goesOn
  · exact moves_recover _ _ draft
  · split
    · next assigns =>
        obtain ⟨stands, assigns⟩ : draft.peek = .localIdent ∧
            isAssignment dialect draft = true := by
          simpa using assigns
        exact moves_assignment dialect (not_atLineEnd_of_peek stands rfl) assigns
    · exact (moves_recover _ _ draft).trans (moves_announced dialect block? _)

theorem moves_read (draft : Draft) : Moves draft (read dialect block? draft).1 := by
  unfold read
  split
  · next found =>
      split at found
      · exact moves_field? dialect found
      · contradiction
  · exact moves_regular dialect block? draft

/-- A block is opened by a command word that stands next after some moves. -/
def Opens (draft : Draft) (edge? : Option BlockEdge) : Prop :=
  ∀ block keyword, edge? = some (.opens block keyword) →
    ∃ start, Moves draft start ∧ start.peek = .directiveKw ∧
      keyword = start.nextSpan

theorem opens_none (draft : Draft) : Opens draft none := by
  intro block keyword found
  contradiction

theorem opens_directive (draft : Draft) :
    Opens draft (directive dialect block? draft).2 := by
  unfold directive
  split
  · exact opens_none draft
  · next listed =>
      split
      · exact opens_none draft
      · intro block keyword found
        refine ⟨draft, .stay draft, kindAt_of_directiveAt? listed, ?_⟩
        unfold edge? at found
        split at found <;> cases found
        rfl

theorem Opens.of_moves {before after : Draft} {edge? : Option BlockEdge}
    (moves : Moves before after) (opens : Opens after edge?) :
    Opens before edge? := by
  intro block keyword found
  obtain ⟨start, later, stands, span⟩ := opens block keyword found
  exact ⟨start, moves.trans later, stands, span⟩

theorem opens_announced (draft : Draft) :
    Opens draft (announced dialect block? draft).2 := by
  unfold announced
  split
  · exact opens_directive dialect block? draft
  · exact opens_none draft
  · exact opens_none draft

theorem opens_read (draft : Draft) : Opens draft (read dialect block? draft).2 := by
  unfold read
  split
  · exact opens_none draft
  · unfold regular
    split
    · exact opens_none draft
    · exact opens_none draft
    · exact opens_announced dialect block? draft
    · exact opens_announced dialect block? draft
    · exact opens_none draft
    · exact opens_none draft
    · split
      · exact opens_none draft
      · exact .of_moves (moves_recover _ _ draft) (opens_announced dialect block? _)

end Statement

namespace Line

theorem moves_labels (fuel : Nat) (first : Bool) (draft : Draft) :
    Moves draft (labels fuel first draft) := by
  have labelled {draft : Draft} (goesOn : draft.atLineEnd = false)
      (colon : draft.kindAt 1 = .colon) :
      Moves draft (draft.node .label fun inner => inner.bump.bump) := by
    apply moves_node (by decide)
    intro inner _ ahead
    apply moves_bump_bump
    · rw [atLineEnd_of_upcoming ahead, goesOn]
    · rw [kindAt_of_upcoming ahead, colon]
      rfl
  induction fuel generalizing first draft with
  | zero => exact .stay draft
  | succ fuel ih =>
      unfold labels
      split
      · next stands =>
          split
          · next colon =>
              exact (labelled (not_atLineEnd_of_peek stands rfl) colon).trans (ih _ _)
          · exact .stay draft
      · next stands =>
          split
          · next colon =>
              exact (labelled (not_atLineEnd_of_peek stands rfl) colon).trans (ih _ _)
          · exact .stay draft
      · next stands =>
          split
          · refine Moves.trans ?_ (ih _ _)
            apply moves_node (by decide)
            intro inner _ ahead
            apply Moves.bump
            rw [atLineEnd_of_upcoming ahead]
            exact not_atLineEnd_of_peek stands rfl
          · exact .stay draft
      · exact .stay draft

end Line
end Asm6502
