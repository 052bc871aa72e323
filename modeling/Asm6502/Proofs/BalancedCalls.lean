import Asm6502.Proofs.Scaffolds

/-!
# Balanced calls

Calls are balanced if every node that they start is finished, and before that everything
that is started in it.  The calls of plans are balanced.  A builder inside of a node can
carry balanced calls out and is inside of that node again, so between the start and the
finish of a source file they always build a tree.
-/

namespace Asm6502
namespace Builder

variable {calls first second : List Call} {plans : List Plan} {settled : List Tree}
  {kind : Kind} {outer : List (Kind × List Tree)} {builder : Builder}

/-- Every node that is started is finished, and what is started in between is finished
before. -/
inductive Balanced : List Call → Prop
  | nil : Balanced []
  | leaf {tree : Tree} {rest : List Call} : Balanced rest → Balanced (.adding tree :: rest)
  | node {kind : Kind} {inside rest : List Call} :
      Balanced inside → Balanced rest → Balanced (.start kind :: (inside ++ .finish :: rest))

theorem Balanced.append (balanced : Balanced first) (behind : Balanced second) :
    Balanced (first ++ second) := by
  induction balanced with
  | nil => exact behind
  | leaf _ ih => exact .leaf ih
  | node inside _ _ ih =>
      rw [List.cons_append, List.append_assoc, List.cons_append]
      exact .node inside ih

theorem Balanced.enclose (balanced : Balanced calls) (kind : Kind) :
    Balanced (.start kind :: calls ++ [.finish]) :=
  .node balanced .nil

theorem Plan.balanced_callsOfAll_of_forall (each : ∀ plan ∈ plans, Balanced plan.calls) :
    Balanced (callsOfAll plans) := by
  induction plans with
  | nil => exact .nil
  | cons plan rest ih =>
      rw [callsOfAll]
      exact (each plan (by simp)).append (ih fun other member => each other (by simp [member]))

theorem Plan.balanced_calls (plan : Plan) : Balanced plan.calls := by
  induction plan using Plan.induct with
  | leaf call tree =>
      rw [calls]
      exact .leaf .nil
  | node call kind children ih =>
      rw [calls]
      exact (balanced_callsOfAll_of_forall ih).enclose kind

theorem Plan.balanced_callsOfAll (plans : List Plan) : Balanced (callsOfAll plans) :=
  balanced_callsOfAll_of_forall fun plan _ => plan.balanced_calls

/-- A builder is inside of a node, with what was there when the node was started. -/
def Inside (settled : List Tree) (kind : Kind) (outer : List (Kind × List Tree))
    (builder : Builder) : Prop :=
  ∃ children, builder.sketch = ⟨settled, (kind, children) :: outer⟩

theorem Inside.add (inside : Inside settled kind outer builder) (tree : Tree)
    (pending : List (Kind × Nat)) :
    Inside settled kind outer ⟨builder.sketch.add tree, pending⟩ := by
  obtain ⟨children, sketch⟩ := inside
  refine ⟨tree :: children, ?_⟩
  rw [sketch]
  rfl

theorem Inside.addAll (inside : Inside settled kind outer builder) (trees : List Tree)
    (pending : List (Kind × Nat)) :
    Inside settled kind outer ⟨builder.sketch.addAll trees, pending⟩ := by
  induction trees generalizing builder with
  | nil => exact inside
  | cons tree rest ih => exact ih (inside.add tree pending)

theorem Inside.flush (inside : Inside settled kind outer builder) :
    Inside settled kind outer builder.flush :=
  inside.addAll _ _

theorem Inside.perform_adding (inside : Inside settled kind outer builder) (tree : Tree) :
    ∃ carried, perform (.adding tree) builder = .ok carried ∧
      Inside settled kind outer carried := by
  cases tree with
  | token leafKind length =>
      refine ⟨_, rfl, ?_⟩
      rw [Builder.token]
      cases leafKind.isTrivia with
      | true => exact inside
      | false => exact inside.flush.add _ _
  | node nodeKind children => exact ⟨_, rfl, inside.flush.add _ _⟩

theorem Inside.start (inside : Inside settled kind outer builder) (started : Kind) :
    ∃ children, Inside settled started ((kind, children) :: outer) (builder.start started) := by
  rw [Builder.start]
  cases started.absorbsTrivia with
  | true =>
      obtain ⟨children, sketch⟩ := inside
      refine ⟨children, [], ?_⟩
      rw [if_pos rfl, Sketch.enter, sketch]
  | false =>
      obtain ⟨children, sketch⟩ := inside.flush
      refine ⟨children, [], ?_⟩
      rw [if_neg Bool.false_ne_true, Sketch.enter, sketch]

theorem close_of_outer {started : Kind} {inner children : List Tree} :
    ∃ more, close started ⟨settled, (started, inner) :: (kind, children) :: outer⟩ =
      ⟨settled, (kind, more) :: outer⟩ := by
  cases inner with
  | nil => exact ⟨children, rfl⟩
  | cons tree rest => exact ⟨.node started (tree :: rest).reverse :: children, rfl⟩

theorem finish_eq (inside : Inside settled kind outer builder) :
    builder.finish = .ok
      { (if kind.absorbsTrivia then builder.flush else builder) with
        sketch := close kind (if kind.absorbsTrivia then builder.flush else builder).sketch } := by
  obtain ⟨children, sketch⟩ := inside
  have tag : builder.sketch.tag? = some kind := by
    rw [sketch]
    rfl
  rw [Builder.finish, tag]

theorem Inside.finish {started : Kind} {children : List Tree}
    (inside : Inside settled started ((kind, children) :: outer) builder) :
    ∃ carried, builder.finish = .ok carried ∧ Inside settled kind outer carried := by
  refine ⟨_, finish_eq inside, ?_⟩
  have ready : Inside settled started ((kind, children) :: outer)
      (if started.absorbsTrivia then builder.flush else builder) := by
    split
    · exact inside.flush
    · exact inside
  obtain ⟨inner, sketch⟩ := ready
  rw [sketch]
  exact close_of_outer

theorem performAll_append (first second : List Call) (builder : Builder) :
    performAll (first ++ second) builder =
      (performAll first builder).bind (performAll second) := by
  induction first generalizing builder with
  | nil => rfl
  | cons call rest ih =>
      rw [List.cons_append, performAll, performAll]
      cases builder.perform call with
      | error reason => rfl
      | ok next => exact ih next

theorem Balanced.carried (balanced : Balanced calls)
    (inside : Inside settled kind outer builder) :
    ∃ carried, performAll calls builder = .ok carried ∧ Inside settled kind outer carried := by
  induction balanced generalizing kind outer builder with
  | nil => exact ⟨builder, rfl, inside⟩
  | leaf _ ih =>
      obtain ⟨next, step, inside⟩ := inside.perform_adding _
      rw [performAll, step]
      exact ih inside
  | @node started _ _ _ _ innerIH restIH =>
      obtain ⟨children, entered⟩ := inside.start started
      obtain ⟨filled, inner, within⟩ := innerIH entered
      obtain ⟨closed, finished, outside⟩ := within.finish
      have step : perform (.start started) builder = .ok (builder.start started) := rfl
      have last : perform .finish filled = .ok closed := finished
      rw [performAll, step, Except.bind, performAll_append, inner, Except.bind, performAll, last]
      exact restIH outside

/-- Balanced calls inside of a source file build a tree. -/
theorem Balanced.exists_build (balanced : Balanced calls) :
    ∃ children, build (.start .sourceFile :: calls ++ [.finish]) =
      .ok (.node .sourceFile children) := by
  have entered : Inside [] .sourceFile [] (start .sourceFile {}) := ⟨[], rfl⟩
  obtain ⟨filled, carried, inside⟩ := balanced.carried entered
  have finished := finish_eq inside
  obtain ⟨children, sketch⟩ := inside.flush
  have absorbs : Kind.sourceFile.absorbsTrivia = true := rfl
  have step : perform (.start .sourceFile) {} = .ok (start .sourceFile {}) := rfl
  have last : perform .finish filled = filled.finish := rfl
  have closed : close .sourceFile ⟨[], [(.sourceFile, children)]⟩ =
      ⟨[.node .sourceFile children.reverse], []⟩ := by
    cases children <;> rfl
  refine ⟨children.reverse, ?_⟩
  rw [build, List.cons_append, performAll, step, Except.bind, performAll_append, carried,
    Except.bind, performAll, last, finished, if_pos absorbs, sketch, closed]
  rfl

end Builder
end Asm6502
