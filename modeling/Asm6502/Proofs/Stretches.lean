import Asm6502.Proofs.BalancedCalls
import Asm6502.Proofs.DisciplinedLogs

/-!
# Stretches of steps

Steps that complete every node they open, and open a node only in the innermost open one or
around the last completed one, form a tree: a stretch.  From a stretch one can tell the calls
that a builder gets for its steps, and what the builder makes of them: the trees that it adds
to the node it is in, and the trivia that it still holds back behind them.
-/

namespace Asm6502

open Builder (Call Plan)

namespace Tree

/-- A node around some trees, left out if there are none. -/
def around (kind : Kind) : List Tree → List Tree
  | [] => []
  | tree :: rest => [.node kind (tree :: rest)]

theorem around_of_ne_nil (kind : Kind) {trees : List Tree} (nonempty : trees ≠ []) :
    around kind trees = [.node kind trees] := by
  obtain ⟨tree, rest, rfl⟩ := List.exists_cons_of_ne_nil nonempty
  rfl

end Tree

theorem Sketch.leave_addAll_enter_around {τ : Type} (sketch : Sketch τ) (tag : τ)
    (trees : List Tree) (kind : Kind) :
    ((sketch.enter tag).addAll trees).leave kind = sketch.addAll (Tree.around kind trees) := by
  cases trees with
  | nil => rfl
  | cons tree rest => exact leave_addAll_enter _ _ (List.cons_ne_nil _ _) _

namespace Builder

/-- What is added to the innermost open node behind trivia that are held back, and which
trivia are held back then. -/
abbrev Placement := (held : List (Kind × Nat)) → List Tree × List (Kind × Nat)

def leaves (held : List (Kind × Nat)) : List Tree :=
  held.map fun (kind, length) => .token kind length

namespace Placement

def nothing : Placement := fun held => ([], held)

def leaf (tree : Tree) : Placement := fun held =>
  match tree with
  | .token kind length =>
      if kind.isTrivia then ([], held ++ [(kind, length)])
      else (leaves held ++ [tree], [])
  | .node _ _ => (leaves held ++ [tree], [])

def andThen (first second : Placement) : Placement := fun held =>
  let (trees, between) := first held
  let (more, behind) := second between
  (trees ++ more, behind)

/-- A node takes the trivia around it in if it absorbs trivia. -/
def node (kind : Kind) (inside : Placement) : Placement := fun held =>
  if kind.absorbsTrivia then
    let (trees, behind) := inside held
    (Tree.around kind (trees ++ leaves behind), [])
  else
    let (trees, behind) := inside []
    (leaves held ++ Tree.around kind trees, behind)

theorem node_of_absorbs {kind : Kind} (absorbs : kind.absorbsTrivia = true) (inside : Placement)
    (held : List (Kind × Nat)) :
    inside.node kind held =
      (Tree.around kind ((inside held).1 ++ leaves (inside held).2), []) :=
  if_pos absorbs

theorem node_of_not_absorbs {kind : Kind} (absorbs : kind.absorbsTrivia = false)
    (inside : Placement) (held : List (Kind × Nat)) :
    inside.node kind held =
      (leaves held ++ Tree.around kind (inside []).1, (inside []).2) :=
  if_neg (by simp [absorbs])

end Placement

/-- Put what a placement adds into the innermost open node. -/
def place (placement : Placement) (builder : Builder) : Builder :=
  ⟨builder.sketch.addAll (placement builder.pending).1, (placement builder.pending).2⟩

/-- Calls place something wherever a node is open. -/
def Places (calls : List Call) (placement : Placement) : Prop :=
  ∀ builder : Builder, builder.sketch.opened ≠ [] →
    performAll calls builder = .ok (builder.place placement)

variable {calls more : List Call} {placement further : Placement} {builder : Builder}

theorem opened_addAll_ne_nil {sketch : Sketch Kind} (isOpen : sketch.opened ≠ [])
    (trees : List Tree) : (sketch.addAll trees).opened ≠ [] := by
  obtain ⟨⟨tag, children⟩, outer, opened⟩ := List.exists_cons_of_ne_nil isOpen
  rw [Sketch.addAll_of_opened opened]
  exact List.cons_ne_nil _ _

theorem places_nothing : Places [] .nothing := fun _ _ => rfl

theorem Places.append (first : Places calls placement) (second : Places more further) :
    Places (calls ++ more) (placement.andThen further) := by
  intro builder isOpen
  rw [performAll_append, first builder isOpen]
  refine (second _ (opened_addAll_ne_nil isOpen _)).trans ?_
  simp only [place, Placement.andThen, Sketch.addAll_append]

theorem flush_eq (builder : Builder) :
    builder.flush = ⟨builder.sketch.addAll (leaves builder.pending), []⟩ :=
  rfl

theorem places_adding (tree : Tree) : Places [.adding tree] (.leaf tree) := by
  intro builder _
  cases tree with
  | token kind length =>
      have step : performAll [.adding (.token kind length)] builder =
          .ok (builder.token kind length) := rfl
      rw [step, Builder.token, place, Placement.leaf]
      cases kind.isTrivia with
      | true => rfl
      | false =>
          simp only [Bool.false_eq_true, if_false, flush_eq, Sketch.addAll_append]
          rfl
  | node kind children =>
      have step : performAll [.adding (.node kind children)] builder =
          .ok (builder.reuse (.node kind children)) := rfl
      rw [step, Builder.reuse, place, Placement.leaf]
      simp only [flush_eq, Sketch.addAll_append]
      rfl

theorem close_addAll_enter {sketch : Sketch Kind} (isOpen : sketch.opened ≠ []) (kind : Kind)
    (trees : List Tree) :
    close kind ((sketch.enter kind).addAll trees) =
      sketch.addAll (Tree.around kind trees) := by
  rw [← Sketch.leave_addAll_enter_around sketch kind trees kind]
  obtain ⟨entry, outer, opened⟩ := List.exists_cons_of_ne_nil isOpen
  rw [Sketch.addAll_of_opened rfl, close, opened]
  cases trees.reverse <;> rfl

/-- The outermost node is closed even if there is nothing in it. -/
theorem close_addAll_enter_empty (kind : Kind) (trees : List Tree) :
    close kind ((Sketch.enter {} kind).addAll trees) = ⟨[.node kind trees], []⟩ := by
  rw [Sketch.addAll_of_opened rfl, List.append_nil]
  obtain ⟨reversed, rfl⟩ : ∃ reversed, trees = reversed.reverse :=
    ⟨trees.reverse, by rw [List.reverse_reverse]⟩
  rw [List.reverse_reverse]
  cases reversed <;> rfl

theorem Places.node (places : Places calls placement) (kind : Kind) :
    Places (.start kind :: (calls ++ [.finish])) (placement.node kind) := by
  intro builder isOpen
  have started : perform (.start kind) builder = .ok (builder.start kind) := rfl
  have finishing (builder : Builder) :
      performAll [.finish] builder = builder.finish.bind .ok := rfl
  have entered (sketch : Sketch Kind) (trees : List Tree) (pending : List (Kind × Nat)) :
      Inside sketch.settled kind sketch.opened ⟨(sketch.enter kind).addAll trees, pending⟩ :=
    ⟨_, Sketch.addAll_of_opened rfl trees⟩
  rw [performAll, started, Except.bind, performAll_append]
  cases absorbs : kind.absorbsTrivia with
  | true =>
      rw [Builder.start, if_pos absorbs, places _ (List.cons_ne_nil _ _), Except.bind, finishing,
        place, finish_eq (entered builder.sketch _ _), if_pos absorbs, place,
        Placement.node_of_absorbs absorbs]
      simp only [flush_eq, ← Sketch.addAll_append, close_addAll_enter isOpen, Except.bind]
  | false =>
      rw [Builder.start, if_neg (by simp [absorbs]), places _ (List.cons_ne_nil _ _),
        Except.bind, finishing, place, finish_eq (entered builder.flush.sketch _ _),
        if_neg (by simp [absorbs]), place, Placement.node_of_not_absorbs absorbs]
      simp only [flush_eq, close_addAll_enter (opened_addAll_ne_nil isOpen _), Except.bind,
        Sketch.addAll_append]

end Builder

namespace Log

/-- What is done by some steps in the innermost open node. -/
inductive Stretch where
  /-- Something is added. -/
  | leaf (tree : Tree)
  /-- A node is opened and completed. -/
  | node (kind : Kind) (parts : List Stretch)
  /-- A node is opened around the first one and completed. -/
  | around (kind : Kind) (first : Stretch) (parts : List Stretch)

namespace Stretch

mutual

def steps : Stretch → List Step
  | .leaf tree => [.add tree]
  | .node kind parts => .start :: (stepsOfAll parts ++ [.complete kind])
  | .around kind first parts =>
      first.steps ++ .precede :: (stepsOfAll parts ++ [.complete kind])

def stepsOfAll : List Stretch → List Step
  | [] => []
  | stretch :: rest => stretch.steps ++ stepsOfAll rest

end

mutual

/-- The calls of a builder for the steps. -/
def calls : Stretch → List Call
  | .leaf tree => [.adding tree]
  | .node kind parts => .start kind :: (callsOfAll parts ++ [.finish])
  | .around kind first parts =>
      .start kind :: (first.calls ++ callsOfAll parts ++ [.finish])

def callsOfAll : List Stretch → List Call
  | [] => []
  | stretch :: rest => stretch.calls ++ callsOfAll rest

end

mutual

/-- What a builder makes of the calls. -/
def placed : Stretch → Builder.Placement
  | .leaf tree => .leaf tree
  | .node kind parts => (placedAll parts).node kind
  | .around kind first parts => (first.placed.andThen (placedAll parts)).node kind

def placedAll : List Stretch → Builder.Placement
  | [] => .nothing
  | stretch :: rest => stretch.placed.andThen (placedAll rest)

end

mutual

def kept : Stretch → List Tree
  | .leaf tree => [tree]
  | .node kind parts => Tree.around kind (keptOfAll parts)
  | .around kind first parts => Tree.around kind (first.kept ++ keptOfAll parts)

def keptOfAll : List Stretch → List Tree
  | [] => []
  | stretch :: rest => stretch.kept ++ keptOfAll rest

end

@[elab_as_elim]
theorem induct {motive : Stretch → Prop} (leaf : ∀ tree, motive (.leaf tree))
    (node : ∀ kind parts, (∀ part ∈ parts, motive part) → motive (.node kind parts))
    (around : ∀ kind first parts, motive first → (∀ part ∈ parts, motive part) →
      motive (.around kind first parts)) :
    ∀ stretch, motive stretch
  | .leaf tree => leaf tree
  | .node kind parts => node kind parts fun part _ => induct leaf node around part
  | .around kind first parts =>
      around kind first parts (induct leaf node around first)
        fun part _ => induct leaf node around part

variable {stretch : Stretch} {stretches parts : List Stretch} {held : List (Kind × Nat)}

@[simp]
theorem stepsOfAll_append (first second : List Stretch) :
    stepsOfAll (first ++ second) = stepsOfAll first ++ stepsOfAll second := by
  induction first with
  | nil => rfl
  | cons stretch rest ih => rw [List.cons_append, stepsOfAll, stepsOfAll, ih, List.append_assoc]

@[simp]
theorem keptOfAll_append (first second : List Stretch) :
    keptOfAll (first ++ second) = keptOfAll first ++ keptOfAll second := by
  induction first with
  | nil => rfl
  | cons stretch rest ih => rw [List.cons_append, keptOfAll, keptOfAll, ih, List.append_assoc]

theorem placedAll_append (first second : List Stretch) :
    placedAll (first ++ second) = (placedAll first).andThen (placedAll second) := by
  induction first with
  | nil => rfl
  | cons stretch rest ih =>
      funext held
      rw [List.cons_append, placedAll, placedAll, ih]
      simp only [Builder.Placement.andThen, List.append_assoc]

theorem placedAll_singleton (stretch : Stretch) : placedAll [stretch] = stretch.placed := by
  funext held
  simp [placedAll, Builder.Placement.andThen, Builder.Placement.nothing]

theorem places_callsOfAll_of_forall (each : ∀ part ∈ parts, Builder.Places part.calls part.placed) :
    Builder.Places (callsOfAll parts) (placedAll parts) := by
  induction parts with
  | nil => exact Builder.places_nothing
  | cons part rest ih =>
      obtain ⟨here, behind⟩ := List.forall_mem_cons.mp each
      exact here.append (ih behind)

theorem places_calls (stretch : Stretch) : Builder.Places stretch.calls stretch.placed := by
  induction stretch using induct with
  | leaf tree => exact Builder.places_adding tree
  | node kind parts ih => exact (places_callsOfAll_of_forall ih).node kind
  | around kind first parts firstIH ih =>
      exact (firstIH.append (places_callsOfAll_of_forall ih)).node kind

theorem places_callsOfAll (stretches : List Stretch) :
    Builder.Places (callsOfAll stretches) (placedAll stretches) :=
  places_callsOfAll_of_forall fun stretch _ => stretch.places_calls

/-- The tree that a builder makes of stretches inside of a source file. -/
theorem build_callsOfAll (stretches : List Stretch) :
    Builder.build (.start .sourceFile :: (callsOfAll stretches ++ [.finish])) =
      .ok (.node .sourceFile ((placedAll stretches []).1 ++
        Builder.leaves (placedAll stretches []).2)) := by
  -- The outermost node stays even if it is empty, so `Places.node` does not apply to it.
  generalize outcome : placedAll stretches [] = placed
  have started : Builder.perform (.start .sourceFile) {} =
      .ok (Builder.start .sourceFile {}) := rfl
  have filled : Builder.performAll (callsOfAll stretches) (Builder.start .sourceFile {}) =
      .ok ⟨(Sketch.enter {} .sourceFile).addAll placed.1, placed.2⟩ := by
    rw [places_callsOfAll stretches _ (List.cons_ne_nil _ _), ← outcome]
    rfl
  have inside : Builder.Inside [] .sourceFile []
      ⟨(Sketch.enter {} .sourceFile).addAll placed.1, placed.2⟩ :=
    ⟨_, Sketch.addAll_of_opened rfl _⟩
  have last (builder : Builder) : Builder.perform .finish builder = builder.finish := rfl
  have absorbs : Kind.sourceFile.absorbsTrivia = true := rfl
  rw [Builder.build, Builder.performAll, started, Except.bind, Builder.performAll_append, filled,
    Except.bind, Builder.performAll, last, Builder.finish_eq inside, if_pos absorbs,
    Builder.flush_eq]
  simp only [← Sketch.addAll_append, Builder.close_addAll_enter_empty]
  rfl

def isNode : Stretch → Bool
  | .leaf _ => false
  | .node _ _ | .around _ _ _ => true

/-- Nodes are opened around nodes only, and no node is of the reserved kind. -/
inductive Sound : Stretch → Prop
  | leaf {tree : Tree} : Sound (.leaf tree)
  | node {kind : Kind} {parts : List Stretch} :
      kind ≠ .tombstone → (∀ part ∈ parts, Sound part) → Sound (.node kind parts)
  | around {kind : Kind} {first : Stretch} {parts : List Stretch} :
      kind ≠ .tombstone → first.isNode = true → Sound first → (∀ part ∈ parts, Sound part) →
        Sound (.around kind first parts)

variable {base : Nat} {before : List Operation} {earlier : List Plan}

/-- Operations that do the steps of a stretch behind bracketed ones, and the plan that they
build. -/
structure Recorded (stretch : Stretch) (base : Nat) (before : List Operation)
    (earlier : List Plan) (operations : List Operation) (plan : Plan) : Prop where
  steps : operations.map Operation.step = stretch.steps
  calls : plan.calls = stretch.calls
  isNode : stretch.isNode = true → ∃ call kind children, plan = .node call kind children
  assembles : Assembles base (before ++ operations) (plan :: earlier)

theorem exists_assembles_of_forall
    (each : ∀ part ∈ parts, ∀ base before earlier, Assembles base before earlier →
      ∃ operations plan, Recorded part base before earlier operations plan)
    (assembles : Assembles base before earlier) :
    ∃ operations plans, operations.map Operation.step = stepsOfAll parts ∧
      Plan.callsOfAll plans = callsOfAll parts ∧
        Assembles base (before ++ operations) (plans.reverse ++ earlier) := by
  induction parts generalizing before earlier with
  | nil => exact ⟨[], [], rfl, rfl, by simpa using assembles⟩
  | cons part rest ih =>
      obtain ⟨here, behind⟩ := List.forall_mem_cons.mp each
      obtain ⟨first, plan, recorded⟩ := here base before earlier assembles
      obtain ⟨more, plans, steps, calls, whole⟩ := ih behind recorded.assembles
      refine ⟨first ++ more, plan :: plans, ?_, ?_, ?_⟩
      · rw [List.map_append, recorded.steps, steps, stepsOfAll]
      · rw [Plan.callsOfAll, recorded.calls, calls, callsOfAll]
      · rwa [List.reverse_cons, List.append_assoc, ← List.append_assoc before]

/-- The steps of a stretch can be taken down behind any bracketed operations. -/
theorem Sound.recorded (sound : stretch.Sound) (assembles : Assembles base before earlier) :
    ∃ operations plan, Recorded stretch base before earlier operations plan := by
  -- The operations stand wherever those before end, so positions are general in the induction.
  induction sound generalizing base before earlier with
  | @leaf tree => exact ⟨[.add tree], _, rfl, rfl, nofun, .add assembles⟩
  | @node kind parts real _ ih =>
      have fresh : Assembles (base + before.length + 1) [] [] := .nil
      obtain ⟨inner, plans, steps, calls, inside⟩ := exists_assembles_of_forall
        (fun part member _ _ _ => ih part member) fresh
      refine ⟨.start :: (inner ++ [.complete _ kind]), _, ?_, ?_, fun _ => ⟨_, _, _, rfl⟩,
        .node assembles inside real⟩
      · simp [steps, Stretch.steps, Operation.step]
      · simp [Plan.calls, calls, Stretch.calls]
  | @around kind first parts real isNode _ _ firstIH ih =>
      obtain ⟨front, plan, recorded⟩ := firstIH assembles
      obtain ⟨call, firstKind, children, rfl⟩ := recorded.isNode isNode
      have fresh : Assembles (base + (before ++ front).length + 1) [] [] := .nil
      obtain ⟨inner, plans, steps, calls, inside⟩ := exists_assembles_of_forall
        (fun part member _ _ _ => ih part member) fresh
      have whole := Assembles.around recorded.assembles inside real
      rw [List.append_assoc] at whole
      refine ⟨_, _, ?_, ?_, fun _ => ⟨_, _, _, rfl⟩, whole⟩
      · simp [recorded.steps, steps, Stretch.steps, Operation.step]
      · rw [Plan.calls, Plan.callsOfAll, recorded.calls, List.append_nil, List.reverse_reverse,
          calls, Stretch.calls, List.cons_append]

end Stretch
end Log
end Asm6502
