import Asm6502.Proofs.BuilderCalls
import Asm6502.Proofs.SketchForest

/-!
# Plans of built trees

A plan is a tree in which every node and every leaf knows the call it comes from.  A
builder that keeps such plans does the same as one that does not: forgetting the calls
commutes with every call.
-/

namespace Asm6502
namespace Builder

/-- A tree with the positions of the calls that it was built by. -/
inductive Plan where
  /-- A token or a finished node that was added. -/
  | leaf (call : Nat) (tree : Tree)
  /-- A node that was started. -/
  | node (call : Nat) (kind : Kind) (children : List Plan)

/-- A leaf or a node of a plan with the nodes around it, innermost first. -/
inductive Part where
  | leaf (call : Nat) (tree : Tree) (above : List Nat)
  | node (call : Nat) (kind : Kind) (above : List Nat)

namespace Part

def above : Part → List Nat
  | .leaf _ _ above => above
  | .node _ _ above => above

def leaf? : Part → Option (Nat × Tree)
  | .leaf call tree _ => some (call, tree)
  | .node _ _ _ => none

def start? : Part → Option Nat
  | .leaf _ _ _ => none
  | .node call _ _ => some call

end Part

namespace Plan

/-- Induction over a plan, with the children of a node as a list. -/
@[elab_as_elim]
theorem induct {motive : Plan → Prop}
    (leaf : ∀ call tree, motive (.leaf call tree))
    (node : ∀ call kind children,
      (∀ child ∈ children, motive child) → motive (.node call kind children)) :
    ∀ plan, motive plan
  | .leaf call tree => leaf call tree
  | .node call kind children => node call kind children fun child _ => induct leaf node child

mutual

/-- The tree without the calls. -/
def tree : Plan → Tree
  | .leaf _ tree => tree
  | .node _ kind children => .node kind (trees children)

def trees : List Plan → List Tree
  | [] => []
  | plan :: rest => plan.tree :: trees rest

end

mutual

def parts (above : List Nat) : Plan → List Part
  | .leaf call tree => [.leaf call tree above]
  | .node call kind children => .node call kind above :: partsOfAll (call :: above) children

def partsOfAll (above : List Nat) : List Plan → List Part
  | [] => []
  | plan :: rest => plan.parts above ++ partsOfAll above rest

end

theorem trees_eq_map (plans : List Plan) : trees plans = plans.map tree := by
  induction plans with
  | nil => rfl
  | cons plan rest ih => rw [trees, List.map_cons, ih]

theorem partsOfAll_eq_flatMap (above : List Nat) (plans : List Plan) :
    partsOfAll above plans = plans.flatMap (parts above) := by
  induction plans with
  | nil => rfl
  | cons plan rest ih => rw [partsOfAll, List.flatMap_cons, ih]

def leaves (plan : Plan) : List (Nat × Tree) :=
  (plan.parts []).filterMap Part.leaf?

/-- The started nodes, parents before children. -/
def starts (plan : Plan) : List Nat :=
  (plan.parts []).filterMap Part.start?

/-- A plan is a child of the node with a call. -/
inductive HasChild : Plan → (parent : Nat) → (child : Plan) → Prop
  | here {call : Nat} {kind : Kind} {children : List Plan} {child : Plan} :
      child ∈ children → HasChild (.node call kind children) call child
  | inside {call parent : Nat} {kind : Kind} {children : List Plan} {inner child : Plan} :
      inner ∈ children → HasChild inner parent child →
        HasChild (.node call kind children) parent child

/-- Every started node has children. -/
inductive Filled : Plan → Prop
  | leaf {call : Nat} {tree : Tree} : Filled (.leaf call tree)
  | node {call : Nat} {kind : Kind} {children : List Plan} :
      children ≠ [] → (∀ child ∈ children, Filled child) → Filled (.node call kind children)

/-- Every started node has children, apart from the outermost one. -/
inductive FilledBelow : Plan → Prop
  | leaf {call : Nat} {tree : Tree} : FilledBelow (.leaf call tree)
  | node {call : Nat} {kind : Kind} {children : List Plan} :
      (∀ child ∈ children, Filled child) → FilledBelow (.node call kind children)

theorem Filled.filledBelow {plan : Plan} (filled : plan.Filled) : plan.FilledBelow := by
  cases filled with
  | leaf => exact .leaf
  | node _ children => exact .node children

/-- The leaves of the tree are those of what was added. -/
theorem leaves_tree (plan : Plan) (above : List Nat) :
    plan.tree.leaves = ((plan.parts above).filterMap Part.leaf?).flatMap
      fun leaf => leaf.2.leaves := by
  induction plan using induct generalizing above with
  | leaf => simp [Plan.tree, parts, Part.leaf?]
  | node call kind children ih =>
      rw [Plan.tree, Tree.leaves, parts, partsOfAll_eq_flatMap, List.filterMap_cons, Part.leaf?,
        trees_eq_map]
      induction children with
      | nil => rfl
      | cons child rest restIH =>
          rw [List.map_cons, Tree.allLeaves, List.flatMap_cons, List.filterMap_append,
            List.flatMap_append, ← ih child (by simp),
            restIH fun other member => ih other (by simp [member])]

theorem hasChild_of_mem_parts {plan : Plan} {above path : List Nat} {call : Nat} {tree : Tree}
    (member : .leaf call tree path ∈ plan.parts above) :
    (plan = .leaf call tree ∧ path = above) ∨
      ∃ parent outer, path = parent :: outer ∧ plan.HasChild parent (.leaf call tree) := by
  induction plan using induct generalizing above with
  | leaf =>
      simp only [parts, List.mem_singleton, Part.leaf.injEq] at member
      obtain ⟨rfl, rfl, rfl⟩ := member
      exact .inl ⟨rfl, rfl⟩
  | node here kind children ih =>
      right
      simp only [parts, List.mem_cons, reduceCtorEq, false_or, partsOfAll_eq_flatMap,
        List.mem_flatMap] at member
      obtain ⟨child, childIn, inside⟩ := member
      rcases ih child childIn inside with ⟨rfl, rfl⟩ | ⟨parent, outer, path, below⟩
      · exact ⟨here, above, rfl, .here childIn⟩
      · exact ⟨parent, outer, path, .inside childIn below⟩

/-- Around a part there are started nodes only. -/
theorem mem_starts_of_mem_above {plan : Plan} {above : List Nat} {part : Part}
    (member : part ∈ plan.parts above) :
    ∀ around ∈ part.above, around ∈ above ∨ around ∈ (plan.parts above).filterMap Part.start? := by
  induction plan using induct generalizing above with
  | leaf =>
      simp only [parts, List.mem_singleton] at member
      subst member
      exact fun around aroundIn => .inl aroundIn
  | node here kind children ih =>
      intro around aroundIn
      rw [parts, partsOfAll_eq_flatMap] at member ⊢
      rcases List.mem_cons.mp member with rfl | below
      · exact .inl aroundIn
      · obtain ⟨child, childIn, inside⟩ := List.mem_flatMap.mp below
        rw [List.filterMap_cons, Part.start?, List.mem_cons, List.filterMap_flatMap]
        rcases ih child childIn inside around aroundIn with outer | started
        · rcases List.mem_cons.mp outer with same | outer
          · exact .inr (.inl same)
          · exact .inl outer
        · exact .inr (.inr (List.mem_flatMap.mpr ⟨child, childIn, started⟩))

theorem eq_or_length_lt_of_mem_parts {plan : Plan} {above path : List Nat} {call : Nat}
    {kind : Kind} (member : .node call kind path ∈ plan.parts above) :
    (∃ children, plan = .node call kind children ∧ path = above) ∨
      above.length < path.length := by
  induction plan using induct generalizing above with
  | leaf => simp [parts] at member
  | node here other children ih =>
      rw [parts, partsOfAll_eq_flatMap] at member
      rcases List.mem_cons.mp member with same | below
      · simp only [Part.node.injEq] at same
        obtain ⟨rfl, rfl, rfl⟩ := same
        exact .inl ⟨children, rfl, rfl⟩
      · right
        obtain ⟨child, childIn, inside⟩ := List.mem_flatMap.mp below
        rcases ih child childIn inside with ⟨_, _, rfl⟩ | deeper
        · exact Nat.lt_succ_self _
        · exact Nat.lt_of_succ_lt deeper

end Plan

/-- An open node. -/
structure Layout.Frame where
  call : Nat
  kind : Kind
  /-- The children so far, latest first. -/
  children : List Plan

/-- What a builder holds, with the calls it comes from. -/
structure Layout where
  settled : List Plan := []
  /-- The open nodes, innermost first. -/
  opened : List Layout.Frame := []
  pending : List (Nat × Kind × Nat) := []

namespace Layout

/-- A builder that has forgotten the calls. -/
def erase (layout : Layout) : Builder :=
  ⟨⟨layout.settled.map Plan.tree,
      layout.opened.map fun frame => (frame.kind, frame.children.map Plan.tree)⟩,
    layout.pending.map Prod.snd⟩

/-- Where the open nodes were started, innermost first. -/
def stack (layout : Layout) : List Nat :=
  layout.opened.map Frame.call

def add (layout : Layout) (plan : Plan) : Layout :=
  match layout.opened with
  | [] => { layout with settled := plan :: layout.settled }
  | frame :: outer =>
      { layout with opened := { frame with children := plan :: frame.children } :: outer }

def addAll (layout : Layout) (plans : List Plan) : Layout :=
  plans.foldl add layout

def held (layout : Layout) : List Plan :=
  layout.pending.map fun (call, kind, length) => .leaf call (.token kind length)

def flush (layout : Layout) : Layout :=
  { layout.addAll layout.held with pending := [] }

def enter (call : Nat) (kind : Kind) (layout : Layout) : Layout :=
  { layout with opened := ⟨call, kind, []⟩ :: layout.opened }

def close (layout : Layout) : Layout :=
  match layout.opened with
  | [] => layout
  | frame :: outer =>
      if frame.children.isEmpty && !outer.isEmpty then { layout with opened := outer }
      else
        { layout with opened := outer }.add (.node frame.call frame.kind frame.children.reverse)

def perform (position : Nat) (call : Call) (layout : Layout) : Layout :=
  match call with
  | .start kind =>
      (if kind.absorbsTrivia then layout else layout.flush).enter position kind
  | .token kind length =>
      if kind.isTrivia then
        { layout with pending := layout.pending ++ [(position, kind, length)] }
      else layout.flush.add (.leaf position (.token kind length))
  | .reuse kind children => layout.flush.add (.leaf position (.node kind children))
  | .finish =>
      if (layout.opened.head?.map fun frame => frame.kind.absorbsTrivia).getD false then
        layout.flush.close
      else layout.close

variable {layout : Layout}

theorem opened_addAll {frame : Frame} {outer : List Frame} (plans : List Plan)
    (opened : layout.opened = frame :: outer) :
    (layout.addAll plans).opened =
      { frame with children := plans.reverse ++ frame.children } :: outer := by
  induction plans generalizing layout frame with
  | nil => exact opened
  | cons plan rest ih =>
      have step : (layout.add plan).opened =
          { frame with children := plan :: frame.children } :: outer := by
        rw [add, opened]
      rw [addAll, List.foldl_cons, ← addAll, ih step]
      simp

theorem erase_add (layout : Layout) (plan : Plan) :
    (layout.add plan).erase =
      { layout.erase with sketch := layout.erase.sketch.add plan.tree } := by
  obtain ⟨settled, _ | ⟨frame, outer⟩, pending⟩ := layout <;> rfl

theorem erase_addAll (layout : Layout) (plans : List Plan) :
    (layout.addAll plans).erase =
      { layout.erase with sketch := layout.erase.sketch.addAll (plans.map Plan.tree) } := by
  induction plans generalizing layout with
  | nil => rfl
  | cons plan rest ih =>
      rw [addAll, List.foldl_cons, ← addAll, ih, erase_add]
      rfl

theorem erase_flush (layout : Layout) : layout.flush.erase = layout.erase.flush := by
  have added := congrArg Builder.sketch (erase_addAll layout layout.held)
  have tokens : layout.held.map Plan.tree =
      layout.erase.pending.map fun entry => .token entry.1 entry.2 := by
    rw [held, erase, List.map_map, List.map_map]
    rfl
  rw [tokens] at added
  exact congrArg (Builder.mk · []) added

theorem erase_enter (position : Nat) (kind : Kind) (layout : Layout) :
    (layout.enter position kind).erase =
      { layout.erase with sketch := layout.erase.sketch.enter kind } := rfl

theorem erase_close {frame : Frame} {outer : List Frame} (opened : layout.opened = frame :: outer) :
    layout.close.erase =
      { layout.erase with sketch := Builder.close frame.kind layout.erase.sketch } := by
  obtain ⟨settled, _, pending⟩ := layout
  obtain rfl : _ = frame :: outer := opened
  obtain ⟨call, kind, _ | ⟨child, rest⟩⟩ := frame
  · cases outer <;> rfl
  · have trees : Plan.tree (.node call kind (child :: rest).reverse) =
        .node kind ((child :: rest).map Plan.tree).reverse := by
      rw [Plan.tree, Plan.trees_eq_map, List.map_reverse]
    rw [close]
    simp only [List.isEmpty_cons, Bool.false_and, Bool.false_eq_true, if_false, erase_add,
      trees]
    cases outer <;> rfl

theorem erase_perform {call : Call} {builder : Builder}
    (carried : layout.erase.perform call = .ok builder) (position : Nat) :
    (layout.perform position call).erase = builder := by
  cases call with
  | start kind =>
      obtain rfl := Except.ok.inj carried
      rw [perform, erase_enter, Builder.start]
      cases kind.absorbsTrivia with
      | true => rfl
      | false => rw [if_neg Bool.false_ne_true, erase_flush]; rfl
  | token kind length =>
      obtain rfl := Except.ok.inj carried
      rw [perform, Builder.token]
      cases kind.isTrivia with
      | true => simp [erase]
      | false => simp [erase_add, erase_flush, Plan.tree]
  | reuse kind children =>
      obtain rfl := Except.ok.inj carried
      rw [perform, Builder.reuse, erase_add, erase_flush, Plan.tree]
  | finish =>
      have finished : layout.erase.finish = .ok builder := carried
      cases opened : layout.opened with
      | nil => simp [Builder.finish, Sketch.tag?, erase, opened] at finished
      | cons frame outer =>
          have tag : layout.erase.sketch.tag? = some frame.kind := by
            simp [Sketch.tag?, erase, opened]
          rw [Builder.finish, tag] at finished
          obtain rfl := Except.ok.inj finished
          rw [perform, opened, List.head?_cons, Option.map_some, Option.getD_some]
          cases frame.kind.absorbsTrivia with
          | true =>
              have opened : layout.flush.opened = _ := opened_addAll layout.held opened
              rw [if_pos rfl, if_pos rfl, erase_close opened, erase_flush]
          | false => exact erase_close opened

/-- The parts in open nodes, the nodes themselves included. -/
def partsIn : List Frame → List Part
  | [] => []
  | frame :: outer =>
      partsIn outer ++ .node frame.call frame.kind (outer.map Frame.call) ::
        Plan.partsOfAll (frame.call :: outer.map Frame.call) frame.children.reverse

def parts (layout : Layout) : List Part :=
  Plan.partsOfAll [] layout.settled.reverse ++ partsIn layout.opened

theorem stack_add (layout : Layout) (plan : Plan) : (layout.add plan).stack = layout.stack := by
  obtain ⟨settled, _ | ⟨frame, outer⟩, pending⟩ := layout <;> rfl

theorem parts_add (layout : Layout) (plan : Plan) :
    (layout.add plan).parts = layout.parts ++ plan.parts layout.stack := by
  obtain ⟨settled, _ | ⟨frame, outer⟩, pending⟩ := layout
  · simp [add, parts, partsIn, stack, Plan.partsOfAll_eq_flatMap]
  · simp [add, parts, partsIn, stack, Plan.partsOfAll_eq_flatMap]

theorem pending_add (layout : Layout) (plan : Plan) :
    (layout.add plan).pending = layout.pending := by
  obtain ⟨settled, _ | ⟨frame, outer⟩, pending⟩ := layout <;> rfl

theorem stack_addAll (layout : Layout) (plans : List Plan) :
    (layout.addAll plans).stack = layout.stack := by
  induction plans generalizing layout with
  | nil => rfl
  | cons plan rest ih => rw [addAll, List.foldl_cons, ← addAll, ih, stack_add]

theorem parts_addAll (layout : Layout) (plans : List Plan) :
    (layout.addAll plans).parts = layout.parts ++ Plan.partsOfAll layout.stack plans := by
  induction plans generalizing layout with
  | nil => exact (List.append_nil _).symm
  | cons plan rest ih =>
      rw [addAll, List.foldl_cons, ← addAll, ih, parts_add, stack_add, List.append_assoc,
        Plan.partsOfAll]

theorem parts_enter (position : Nat) (kind : Kind) (layout : Layout) :
    (layout.enter position kind).parts = layout.parts ++ [.node position kind layout.stack] := by
  simp [enter, parts, partsIn, stack, Plan.partsOfAll]

/-- Closing a node keeps all parts, or leaves the node out because it has no children
and is not the outermost one. -/
theorem parts_close {frame : Frame} {outer : List Frame}
    (opened : layout.opened = frame :: outer) :
    layout.close.parts = layout.parts ∨
      (outer ≠ [] ∧ frame.children = [] ∧
        layout.parts = layout.close.parts ++
          [.node frame.call frame.kind (outer.map Frame.call)]) := by
  obtain ⟨settled, _, pending⟩ := layout
  obtain rfl : _ = frame :: outer := opened
  rw [close]
  cases empty : frame.children.isEmpty && !outer.isEmpty with
  | true =>
      right
      obtain ⟨childless, inner⟩ := Bool.and_eq_true_iff.mp empty
      rw [List.isEmpty_iff] at childless
      have nested : outer ≠ [] := by simpa using inner
      refine ⟨nested, childless, ?_⟩
      simp [nested, parts, partsIn, childless, Plan.partsOfAll]
  | false =>
      left
      simp only [empty, Bool.false_eq_true, if_false, parts_add]
      simp [parts, partsIn, stack, Plan.parts]

theorem stack_close {frame : Frame} {outer : List Frame}
    (opened : layout.opened = frame :: outer) : layout.close.stack = layout.stack.tail := by
  obtain ⟨settled, _, pending⟩ := layout
  obtain rfl : _ = frame :: outer := opened
  rw [close]
  cases empty : frame.children.isEmpty && !outer.isEmpty with
  | true => simp [empty, stack]
  | false =>
      simp only [empty, Bool.false_eq_true, if_false, stack_add]
      rfl

theorem pending_close (layout : Layout) : layout.close.pending = layout.pending := by
  obtain ⟨settled, _ | ⟨frame, outer⟩, pending⟩ := layout
  · rfl
  · rw [close]
    cases empty : frame.children.isEmpty && !outer.isEmpty with
    | true => simp [empty]
    | false => simp only [empty, Bool.false_eq_true, if_false, pending_add]

end Layout

end Builder
end Asm6502
