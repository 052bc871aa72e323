import Asm6502.Proofs.LineShape
import Asm6502.Proofs.TidyStretches

/-!
# What a rule draws

What a rule of the grammar does to a draft is taken down in the draft's steps.  They form tidy
stretches, and the trees in the draft's sketch are those that a sketch makes of them.  For a
whole line, a builder makes the same tree of these steps.
-/

namespace Asm6502

open Log (Stretch)

namespace Draft

open Log.Stretch

variable {stretches more : List Stretch} {before after draft : Draft}

/-- Tidy stretches have been drawn between two drafts. -/
structure Drawn (stretches : List Stretch) (before after : Draft) : Prop where
  steps : after.steps = (stepsOfAll stretches).reverse ++ before.steps
  sketch : after.sketch = before.sketch.addAll (keptOfAll stretches)
  tidy : ∀ stretch ∈ stretches, stretch.Tidy

theorem drawn_nil (steps : after.steps = before.steps) (sketch : after.sketch = before.sketch) :
    Drawn [] before after :=
  ⟨steps, sketch, by simp⟩

theorem Drawn.trans {middle : Draft} (first : Drawn stretches before middle)
    (second : Drawn more middle after) : Drawn (stretches ++ more) before after where
  steps := by
    rw [second.steps, first.steps, stepsOfAll_append, List.reverse_append, List.append_assoc]
  sketch := by rw [second.sketch, first.sketch, keptOfAll_append, Sketch.addAll_append]
  tidy := List.forall_mem_append.mpr ⟨first.tidy, second.tidy⟩

/-- Tokens, as they are drawn. -/
def inked (tokens : List Token) : List Stretch :=
  tokens.map fun token => .leaf (leaf token)

theorem stepsOfAll_inked (tokens : List Token) :
    stepsOfAll (inked tokens) = tokens.map fun token => .add (leaf token) := by
  induction tokens with
  | nil => rfl
  | cons token rest ih =>
      rw [inked, List.map_cons, stepsOfAll, ← inked, ih]
      rfl

theorem keptOfAll_inked (tokens : List Token) : keptOfAll (inked tokens) = tokens.map leaf := by
  induction tokens with
  | nil => rfl
  | cons token rest ih =>
      rw [inked, List.map_cons, keptOfAll, ← inked, ih]
      rfl

theorem tidy_inked (tokens : List Token) : ∀ stretch ∈ inked tokens, stretch.Tidy := by
  intro stretch member
  obtain ⟨token, -, rfl⟩ := List.mem_map.mp member
  exact .leaf

theorem drawn_takeTrivia (draft : Draft) : Drawn (inked draft.trivia) draft draft.takeTrivia where
  steps := by rw [stepsOfAll_inked, takeTrivia]
  sketch := by rw [keptOfAll_inked, takeTrivia]
  tidy := tidy_inked _

theorem exists_drawn_bump (draft : Draft) :
    ∃ stretches, Drawn stretches draft draft.bump ∧ EndFirmly stretches := by
  cases ahead : draft.upcoming with
  | nil => exact ⟨[], drawn_nil (by simp [bump, ahead]) (by simp [bump, ahead]), by simp [EndFirmly]⟩
  | cons token behind =>
      refine ⟨inked draft.trivia ++ inked [token], ?_,
        endFirmly_concat (not_isTrivia_of_upcoming ahead)⟩
      refine (drawn_takeTrivia draft).trans ⟨?_, ?_, tidy_inked _⟩
      · rw [bump_of_upcoming ahead]
        rfl
      · rw [bump_of_upcoming ahead]
        rfl

/-- A node that has been filled is what was drawn last. -/
structure EndsFilled (stretches earlier : List Stretch) (last : Stretch) (tree : Tree) :
    Prop where
  split : stretches = earlier ++ [last]
  isNode : last.isNode = true
  kept : last.kept = [tree]

theorem Drawn.leave {role : Role} {kind : Kind} {inner : Draft} (isInline : kind.IsInline)
    (drawn : Drawn stretches (draft.enter role) inner) (firm : EndFirmly stretches) :
    Drawn (inked draft.trivia ++ [.node kind stretches]) draft (inner.leave kind) := by
  refine (drawn_takeTrivia draft).trans ⟨?_, ?_, ?_⟩
  · simp [Draft.leave, drawn.steps, enter, stepsOfAll, Stretch.steps]
  · rw [Draft.leave, drawn.sketch, enter, Sketch.leave_addAll_enter_around, keptOfAll, kept,
      keptOfAll, List.append_nil]
  · intro stretch member
    obtain rfl := List.mem_singleton.mp member
    exact .node isInline drawn.tidy firm

theorem Drawn.wrap {role : Role} {kind : Kind} {operand inner : Draft} {earlier : List Stretch}
    {last : Stretch} {tree : Tree} (isInline : kind.IsInline)
    (left : Drawn stretches draft operand) (filled : EndsFilled stretches earlier last tree)
    (drawn : Drawn more (operand.wrap role) inner) (firm : EndFirmly more) :
    Drawn (earlier ++ [.around kind last more]) draft (inner.leave kind) where
  steps := by
    simp [Draft.leave, drawn.steps, Draft.wrap, left.steps, filled.split, stepsOfAll,
      Stretch.steps]
  sketch := by
    have operandSketch : operand.sketch =
        (draft.sketch.addAll (keptOfAll earlier)).add tree := by
      rw [left.sketch, filled.split, keptOfAll_append, Sketch.addAll_append, keptOfAll,
        filled.kept]
      rfl
    have inside (sketch : Sketch Role) (trees : List Tree) :
        (sketch.add tree).addAll trees = sketch.addAll (tree :: trees) := rfl
    rw [Draft.leave, drawn.sketch, Draft.wrap, operandSketch, Sketch.wrap_add, inside,
      Sketch.leave_addAll_enter_around, ← Sketch.addAll_append, keptOfAll_append, keptOfAll, kept,
      filled.kept, keptOfAll, List.append_nil]
    rfl
  tidy := by
    have both := left.tidy
    rw [filled.split] at both
    obtain ⟨before, lastTidy⟩ := List.forall_mem_append.mp both
    refine List.forall_mem_append.mpr ⟨before, ?_⟩
    intro stretch member
    obtain rfl := List.mem_singleton.mp member
    exact .around isInline filled.isNode (lastTidy last (by simp)) drawn.tidy firm

/-- Where tokens have been taken, something has been drawn. -/
theorem Drawn.keptOfAll_ne_nil (drawn : Drawn stretches before after) (moves : Moves before after)
    (fewer : after.rest.length < before.rest.length) : keptOfAll stretches ≠ [] := by
  intro empty
  obtain ⟨taken, -, took⟩ := moves.took
  have leaves := took.leaves
  rw [drawn.sketch, Sketch.forest_addAll, empty, List.append_nil] at leaves
  have noTokens : taken.map Token.pair = [] := List.append_right_eq_self.mp leaves.symm
  rw [took.rest, List.map_eq_nil_iff.mp noTokens] at fewer
  exact Nat.lt_irrefl _ fewer

/-- Whatever the rules of the grammar do is drawn, and no trivia stand at its end. -/
theorem Draws.exists_drawn {filled : Bool} (draws : Draws filled before after) :
    ∃ stretches, Drawn stretches before after ∧ EndFirmly stretches ∧
      (filled = true → ∃ earlier last tree, EndsFilled stretches earlier last tree) := by
  induction draws with
  | stay draft => exact ⟨[], drawn_nil rfl rfl, by simp [EndFirmly], by simp⟩
  | trans _ _ firstIH secondIH =>
      obtain ⟨stretches, first, firm, -⟩ := firstIH
      obtain ⟨more, second, stillFirm, ending⟩ := secondIH
      refine ⟨stretches ++ more, first.trans second, firm.append stillFirm, fun filled => ?_⟩
      obtain ⟨earlier, last, tree, split, isNode, kept⟩ := ending filled
      exact ⟨stretches ++ earlier, last, tree, by rw [split, List.append_assoc], isNode, kept⟩
  | bump =>
      obtain ⟨stretches, drawn, firm⟩ := exists_drawn_bump _
      exact ⟨stretches, drawn, firm, by simp⟩
  | error => exact ⟨[], drawn_nil rfl rfl, by simp [EndFirmly], by simp⟩
  | errorAt => exact ⟨[], drawn_nil rfl rfl, by simp [EndFirmly], by simp⟩
  | @enter _ _ role kind draft inner isInline inside fewer ih =>
      obtain ⟨stretches, drawn, firm, -⟩ := ih
      refine ⟨_, drawn.leave isInline firm, endFirmly_concat rfl, fun filled => ?_⟩
      have nonempty := drawn.keptOfAll_ne_nil ⟨_, inside⟩ (fewer filled)
      exact ⟨_, _, _, rfl, rfl, Tree.around_of_ne_nil kind nonempty⟩
  | @wrap _ role kind draft operand inner isInline _ _ operandIH ih =>
      obtain ⟨stretches, left, -, ending⟩ := operandIH
      obtain ⟨earlier, last, tree, filled⟩ := ending rfl
      obtain ⟨more, drawn, firm, -⟩ := ih
      refine ⟨_, left.wrap isInline filled drawn firm, endFirmly_concat rfl, fun _ => ?_⟩
      refine ⟨_, _, _, rfl, rfl, Tree.around_of_ne_nil kind ?_⟩
      rw [filled.kept]
      exact List.cons_ne_nil _ _

end Draft

namespace Line

open Draft Log.Stretch

theorem exists_drawn_finish (draft : Draft) : ∃ stretches, Drawn stretches draft (finish draft) := by
  unfold finish
  split
  · obtain ⟨stretches, drawn, -⟩ := exists_drawn_bump draft
    exact ⟨stretches, drawn⟩
  · exact ⟨_, drawn_takeTrivia draft⟩

theorem read_steps (dialect : Dialect) (block? : Option BlockKind) (tokens : List Token) :
    (read dialect block? tokens).steps =
      enclose (finish (stated dialect block? tokens)).steps.reverse := by
  rw [read, stated, ← lineEnd_eq]

/-- Stretches for the steps of a line: the trivia in front, and the line itself, which takes
them in. -/
structure Traced (line : Line) (front : List Stretch) (last : Stretch) : Prop where
  steps : stepsOfAll (front ++ [last]) = line.steps
  placed : ∃ held, placedAll front [] = ([], held) ∧ last.placed held = ([line.tree], [])
  sound : ∀ stretch ∈ front ++ [last], stretch.Sound
  isNode : last.isNode = true

/-- The steps of a line give the tree that has been read. -/
theorem exists_traced (dialect : Dialect) (block? : Option BlockKind) {tokens : List Token}
    (scanned : ∀ token ∈ tokens, Scan.IsScanned token) (isLine : Token.IsLine tokens) :
    ∃ front last, Traced (read dialect block? tokens) front last := by
  obtain ⟨_, draws⟩ := moves_stated dialect block? tokens
  obtain ⟨stretches, drawn, -, -⟩ := draws.exists_drawn
  obtain ⟨more, ended⟩ := exists_drawn_finish (stated dialect block? tokens)
  have whole := drawn.trans ended
  have trees : (read dialect block? tokens).tree = .node .line (keptOfAll (stretches ++ more)) := by
    rw [read_tree, trees_stated dialect block? scanned isLine, whole.sketch,
      Sketch.forest_addAll]
    rfl
  have nonempty : keptOfAll (stretches ++ more) ≠ [] := by
    have shape := isLine_read dialect block? scanned isLine
    intro empty
    rw [trees, empty] at shape
    exact absurd shape.length_pos (Nat.lt_irrefl _)
  obtain ⟨held, front, line⟩ := placed_line whole.tidy
  rw [Tree.around_of_ne_nil _ nonempty, ← trees] at line
  have steps : (finish (stated dialect block? tokens)).steps.reverse =
      stepsOfAll (stretches ++ more) := by
    rw [whole.steps, List.append_nil, List.reverse_reverse]
  refine ⟨_, _, ?_, ⟨held, front, line⟩, ?_, rfl⟩
  · rw [read_steps, steps, stepsOfAll_line whole.tidy]
  · refine List.forall_mem_append.mpr ⟨fun stretch member => ?_, fun stretch member => ?_⟩
    · exact (whole.tidy stretch ((List.takeWhile_sublist _).subset member)).sound
    · obtain rfl := List.mem_singleton.mp member
      refine .node (by decide) fun part partIn => ?_
      exact (whole.tidy part ((List.dropWhile_sublist _).subset partIn)).sound

end Line
end Asm6502
