import Asm6502.Proofs.CursorWalks
import Mathlib.Data.List.Find

/-!
# Moves of a cursor

A cursor in the arena of a tree stands at a place at or below its root, and every move
leads it to such a place again or leaves it where it is.  How deep it stands is the
number of children that lead there from the root.
-/

namespace Asm6502

open Place (preorder)

namespace Place

variable {top place : Place}

theorem depth_eq_of_mem_children {child : Place} (member : child ∈ place.children) :
    child.depth = place.depth + 1 := by
  obtain ⟨first, second, split⟩ := List.append_of_mem member
  exact depth_of_children_eq split

/-- Induction from a place to all that stands below it. -/
theorem preorder_induct {motive : Place → Prop} (here : motive top)
    (child : ∀ parent ∈ top.preorder, motive parent → ∀ child ∈ parent.children, motive child) :
    ∀ place ∈ top.preorder, motive place := by
  intro place member
  refine (forall_mem_preorder (motive := fun place => place ∈ top.preorder ∧ motive place)
    ?_ ⟨mem_preorder_self top, here⟩ place member).2
  rintro parent ⟨parentIn, holds⟩ other otherIn
  exact ⟨children_subset_preorder parentIn other otherIn,
    child parent parentIn holds other otherIn⟩

theorem depth_le_of_mem_preorder (member : place ∈ top.preorder) : top.depth ≤ place.depth := by
  refine preorder_induct (motive := fun place => top.depth ≤ place.depth) (Nat.le_refl _) ?_
    place member
  intro parent _ atMost child childIn
  have deeper := depth_eq_of_mem_children childIn
  omega

theorem exists_parent_of_ne (member : place ∈ top.preorder) (below : place ≠ top) :
    ∃ parent ∈ top.preorder, place ∈ parent.children ∧ place.parent? = some parent := by
  rcases eq_or_mem_children member with same | ⟨parent, parentIn, childIn⟩
  · exact absurd same below
  · exact ⟨parent, parentIn, childIn, parent?_of_mem_children childIn⟩

theorem ne_of_mem_children {parent : Place} (parentIn : parent ∈ top.preorder)
    (childIn : place ∈ parent.children) : place ≠ top := by
  rintro rfl
  have atMost := depth_le_of_mem_preorder parentIn
  have deeper := depth_eq_of_mem_children childIn
  omega

theorem next?_mem_children {parent next : Place} (up : place.parent? = some parent)
    (behind : place.next? = some next) : next ∈ parent.children := by
  rw [← (children_around up).2.1] at behind
  exact List.mem_of_getElem? behind

theorem previous?_mem_children {parent previous : Place} (up : place.parent? = some parent)
    (ahead : place.previous? = some previous) : previous ∈ parent.children := by
  rw [← (children_around up).2.2] at ahead
  split at ahead
  · contradiction
  · exact List.mem_of_getElem? ahead

end Place

namespace Arena

/-- An element stands so many children below another one. -/
inductive Below (arena : Arena) (top : Handle) : Handle → Nat → Prop
  | here : Below arena top top 0
  | child {element child : Handle} {steps : Nat} :
      Below arena top element steps → child ∈ arena.children element →
        Below arena top child (steps + 1)

variable {arena : Arena} {tree : Tree} {top : Place}

/-- What stands below the element of a place are the elements of the places below it. -/
theorem Keeps.below_iff (keeps : arena.Keeps tree) (topIn : top ∈ preorder ⟨tree, []⟩)
    {element : Handle} {steps : Nat} :
    arena.Below top.handle element steps ↔
      ∃ place ∈ top.preorder, place.handle = element ∧ place.depth = top.depth + steps := by
  constructor
  · intro below
    induction below with
    | here => exact ⟨top, Place.mem_preorder_self top, rfl, rfl⟩
    | child _ member ih =>
        obtain ⟨place, placeIn, rfl, depth⟩ := ih
        rw [keeps.children (Place.preorder_subset_preorder topIn _ placeIn)] at member
        obtain ⟨child, childIn, rfl⟩ := List.mem_map.mp member
        have deeper := Place.depth_eq_of_mem_children childIn
        exact ⟨child, Place.children_subset_preorder placeIn child childIn, rfl, by omega⟩
  · rintro ⟨place, placeIn, rfl, depth⟩
    have reached : arena.Below top.handle place.handle (place.depth - top.depth) := by
      refine Place.preorder_induct
        (motive := fun place => arena.Below top.handle place.handle (place.depth - top.depth))
        ?_ ?_ place placeIn
      · rw [Nat.sub_self]
        exact .here
      · intro parent parentIn below child childIn
        have atMost := Place.depth_le_of_mem_preorder parentIn
        have deeper := Place.depth_eq_of_mem_children childIn
        have step : child.depth - top.depth = parent.depth - top.depth + 1 := by omega
        rw [step]
        refine .child below ?_
        rw [keeps.children (Place.preorder_subset_preorder topIn _ parentIn)]
        exact List.mem_map_of_mem childIn
    have steps : place.depth - top.depth = steps := by omega
    rw [← steps]
    exact reached

theorem Keeps.lastChild? (keeps : arena.Keeps tree) {place : Place}
    (member : place ∈ preorder ⟨tree, []⟩) :
    arena.lastChild? place.handle = place.children.getLast?.map Place.handle := by
  obtain ⟨focus, above⟩ := place
  cases focus with
  | token => rfl
  | node kind trees =>
      have count := Place.length_children ⟨.node kind trees, above⟩
      have child := keeps.child? member rfl ((Place.children ⟨.node kind trees, above⟩).length - 1)
      rw [List.getLast?_eq_getElem?, ← child, Place.handle, Arena.lastChild?,
        keeps.nodeEntry member rfl]
      simp only [Place.nodeEntry, ← count, Nat.lt_add_right_iff_pos, Nat.add_sub_cancel_left]
      split
      · rfl
      · next childless =>
          rw [child, List.getElem?_eq_none (by omega)]
          rfl

theorem Keeps.parent?_of_mem_children (keeps : arena.Keeps tree) {child parent : Place}
    (member : child ∈ preorder ⟨tree, []⟩) (isNode : tree.isNode = true)
    (childIn : child ∈ parent.children) :
    arena.parent? child.handle = some (Crumb.nodesBefore parent.above) := by
  have up := keeps.parent? member isNode
  rw [Place.parent?_of_mem_children childIn, Option.map_some,
    Place.handle_of_isNode (Place.isNode_of_mem_children childIn)] at up
  obtain ⟨number, found, same⟩ := Option.map_eq_some_iff.mp up
  rw [found, Handle.node.inj same]

end Arena

namespace Cursor

/-- What a cursor can be told to do. -/
inductive Move where
  | firstChild
  | lastChild
  | childFor (offset : Nat)
  | next
  | previous
  | parent
  | reset
deriving DecidableEq, Repr

namespace Move

/-- The move goes down to a child. -/
def descends : Move → Bool
  | .firstChild => true
  | .lastChild => true
  | .childFor _ => true
  | _ => false

/-- Where a move leads, if it succeeds. -/
def attempt? : Move → Cursor → Option Cursor
  | .firstChild, cursor => cursor.firstChild?
  | .lastChild, cursor => cursor.lastChild?
  | .childFor offset, cursor => cursor.childFor? offset
  | .next, cursor => cursor.next?
  | .previous, cursor => cursor.previous?
  | .parent, cursor => cursor.parent?
  | .reset, cursor => some cursor.reset

/-- The place that a move from a place leads to, under a root. -/
def target? (top place : Place) : Move → Option Place
  | .firstChild => place.children.head?
  | .lastChild => place.children.getLast?
  | .childFor offset => place.children.find? fun child => offset < child.stop
  | .next => if place = top then none else place.next?
  | .previous => if place = top then none else place.previous?
  | .parent => if place = top then none else place.parent?
  | .reset => some top

end Move

/-- Make a move: whether it succeeds, and where the cursor is then. -/
def go (cursor : Cursor) (move : Move) : Bool × Cursor :=
  match move.attempt? cursor with
  | some moved => (true, moved)
  | none => (false, cursor)

def run (moves : List Move) (cursor : Cursor) : Cursor :=
  moves.foldl (fun cursor move => (cursor.go move).2) cursor

variable {arena : Arena} {tree : Tree} {top place target : Place} {move : Move}

theorem mem_children_of_target? (down : move.descends = true)
    (leads : move.target? top place = some target) : target ∈ place.children := by
  cases move with
  | firstChild => exact List.mem_of_head? leads
  | lastChild => exact List.mem_of_getLast? leads
  | childFor offset => exact List.mem_of_find?_eq_some leads
  | _ => contradiction

theorem target?_mem_preorder (placeIn : place ∈ top.preorder)
    (leads : move.target? top place = some target) : target ∈ top.preorder := by
  cases down : move.descends with
  | true => exact Place.children_subset_preorder placeIn _ (mem_children_of_target? down leads)
  | false =>
      have siblings (below : place ≠ top) :
          ∃ parent ∈ top.preorder, place.parent? = some parent ∧
            ∀ child ∈ parent.children, child ∈ top.preorder := by
        obtain ⟨parent, parentIn, -, up⟩ := Place.exists_parent_of_ne placeIn below
        exact ⟨parent, parentIn, up, Place.children_subset_preorder parentIn⟩
      cases move with
      | next =>
          obtain ⟨below, leads⟩ := Option.ite_none_left_eq_some.mp leads
          obtain ⟨parent, -, up, inside⟩ := siblings below
          exact inside _ (Place.next?_mem_children up leads)
      | previous =>
          obtain ⟨below, leads⟩ := Option.ite_none_left_eq_some.mp leads
          obtain ⟨parent, -, up, inside⟩ := siblings below
          exact inside _ (Place.previous?_mem_children up leads)
      | parent =>
          obtain ⟨below, leads⟩ := Option.ite_none_left_eq_some.mp leads
          obtain ⟨parent, parentIn, up, -⟩ := siblings below
          rw [up, Option.some_inj] at leads
          rwa [← leads]
      | reset =>
          obtain rfl : top = target := Option.some_inj.mp leads
          exact Place.mem_preorder_self top
      | _ => contradiction

theorem target?_parent_of_mem_children (placeIn : place ∈ top.preorder)
    (childIn : target ∈ place.children) :
    Move.parent.target? top target = some place := by
  rw [Move.target?, if_neg (Place.ne_of_mem_children placeIn childIn)]
  exact Place.parent?_of_mem_children childIn

theorem target?_previous_of_next (placeIn : place ∈ top.preorder)
    (leads : Move.next.target? top place = some target) :
    Move.previous.target? top target = some place := by
  obtain ⟨below, leads⟩ := Option.ite_none_left_eq_some.mp leads
  obtain ⟨parent, parentIn, -, up⟩ := Place.exists_parent_of_ne placeIn below
  have targetIn := Place.next?_mem_children up leads
  rw [Move.target?, if_neg (Place.ne_of_mem_children parentIn targetIn)]
  exact Place.next?_eq_some_iff.mp leads

theorem target?_next_of_previous (placeIn : place ∈ top.preorder)
    (leads : Move.previous.target? top place = some target) :
    Move.next.target? top target = some place := by
  obtain ⟨below, leads⟩ := Option.ite_none_left_eq_some.mp leads
  obtain ⟨parent, parentIn, -, up⟩ := Place.exists_parent_of_ne placeIn below
  have targetIn := Place.previous?_mem_children up leads
  rw [Move.target?, if_neg (Place.ne_of_mem_children parentIn targetIn)]
  exact Place.next?_eq_some_iff.mpr leads

section

variable (keeps : arena.Keeps tree) (isNode : tree.isNode = true)
  (topIn : top ∈ preorder ⟨tree, []⟩) (topNode : top.isNode = true)

theorem atNode_eq_standing (topNode : top.isNode = true) (arena : Arena) :
    atNode arena (Crumb.nodesBefore top.above) = standing arena top top := by
  rw [atNode, standing, Place.handle_of_isNode topNode]

theorem goTo_standing (arena : Arena) (top place : Place) (next? : Option Place) :
    (standing arena top place).goTo (next?.map Place.handle) =
      next?.map (standing arena top) := by
  cases next? <;> rfl

include topIn topNode

theorem goTo_unless_atRoot (placeIn : place ∈ top.preorder) {found? : Option Handle}
    {next? : Option Place} (found : found? = next?.map Place.handle) :
    (if (standing arena top place).atRoot then none
      else (standing arena top place).goTo found?) =
        (if place = top then none else next?).map (standing arena top) := by
  have member := Place.preorder_subset_preorder topIn _ placeIn
  have atRoot : (standing arena top place).atRoot = true ↔ place = top :=
    atRoot_standing topIn topNode member
  by_cases same : place = top
  · rw [if_pos (atRoot.mpr same), if_pos same]
    rfl
  · rw [if_neg (mt atRoot.mp same), if_neg same, found, goTo_standing]

include keeps isNode

theorem attempt?_standing (placeIn : place ∈ top.preorder) :
    move.attempt? (standing arena top place) =
      (move.target? top place).map (standing arena top) := by
  have member := Place.preorder_subset_preorder topIn _ placeIn
  cases move with
  | firstChild =>
      rw [Move.attempt?, Move.target?, ← goTo_standing arena top place]
      exact congrArg (fun next => goTo next _) (keeps.firstChild? member)
  | lastChild =>
      rw [Move.attempt?, Move.target?, ← goTo_standing arena top place]
      exact congrArg (fun next => goTo next _) (keeps.lastChild? member)
  | childFor offset =>
      rw [Move.attempt?, Move.target?, childFor?, ← goTo_standing arena top place]
      refine congrArg (fun next => goTo next _) ?_
      rw [standing, keeps.children member, List.find?_map]
      refine congrArg (Option.map Place.handle) (List.find?_congr fun child childIn => ?_)
      have inside := Place.children_subset_preorder member child childIn
      rw [Function.comp_apply, keeps.span inside]
      rfl
  | next => exact goTo_unless_atRoot topIn topNode placeIn (keeps.next? member isNode)
  | previous => exact goTo_unless_atRoot topIn topNode placeIn (keeps.previous? member isNode)
  | parent => exact goTo_unless_atRoot topIn topNode placeIn (keeps.parent? member isNode)
  | reset =>
      simp only [Move.attempt?, Move.target?, Option.map_some, reset, standing,
        Place.handle_of_isNode topNode]

/-- How far up from a node the root is. -/
theorem stepsUp?_eq (placeIn : place ∈ top.preorder) (placeNode : place.isNode = true) :
    stepsUp? arena (Crumb.nodesBefore top.above) (Crumb.nodesBefore place.above) =
      some (place.depth - top.depth) := by
  refine Place.preorder_induct
    (motive := fun place => place.isNode = true →
      stepsUp? arena (Crumb.nodesBefore top.above) (Crumb.nodesBefore place.above) =
        some (place.depth - top.depth))
    (fun _ => ?here) ?child place placeIn placeNode
  case here => rw [stepsUp?, if_pos rfl, Nat.sub_self]
  case child =>
    intro parent parentIn steps child childIn childNode
    have parentNode := Place.isNode_of_mem_children childIn
    have memberTop := Place.preorder_subset_preorder topIn _ parentIn
    have member := Place.children_subset_preorder memberTop child childIn
    have other : Crumb.nodesBefore child.above ≠ Crumb.nodesBefore top.above := by
      intro same
      refine Place.ne_of_mem_children parentIn childIn (Arena.handle_injective member topIn ?_)
      rw [Place.handle_of_isNode childNode, Place.handle_of_isNode topNode, same]
    have up := keeps.parent?_of_mem_children member isNode childIn
    rw [Place.handle_of_isNode childNode, Arena.parent?] at up
    obtain ⟨first, second, split⟩ := List.append_of_mem childIn
    have lower : (standing arena top parent).rank < (standing arena top child).rank :=
      rank_lt keeps memberTop split
    simp only [rank, standing, Place.handle_of_isNode childNode,
      Place.handle_of_isNode parentNode] at lower
    have atMost := Place.depth_le_of_mem_preorder parentIn
    have deeper := Place.depth_eq_of_mem_children childIn
    -- The recursion goes on at the parent, which has a lower number.
    rw [stepsUp?, if_neg other]
    simp only [up, lower, if_true, steps parentNode, Option.map_some, Option.some_inj]
    omega

theorem depth_standing (placeIn : place ∈ top.preorder) :
    (standing arena top place).depth = place.depth - top.depth := by
  have member := Place.preorder_subset_preorder topIn _ placeIn
  have atRoot : (standing arena top place).atRoot = true ↔ place = top :=
    atRoot_standing topIn topNode member
  rw [depth]
  by_cases same : place = top
  · rw [if_pos (atRoot.mpr same), same, Nat.sub_self]
  · obtain ⟨parent, parentIn, childIn, -⟩ := Place.exists_parent_of_ne placeIn same
    have up := keeps.parent?_of_mem_children member isNode childIn
    have steps := stepsUp?_eq keeps isNode topIn topNode parentIn
      (Place.isNode_of_mem_children childIn)
    have atMost := Place.depth_le_of_mem_preorder parentIn
    have deeper := Place.depth_eq_of_mem_children childIn
    rw [if_neg (mt atRoot.mp same)]
    simp only [standing, up, Option.bind_some, steps, Option.map_some, Option.getD_some]
    omega

theorem go_standing (placeIn : place ∈ top.preorder) :
    (standing arena top place).go move =
      match move.target? top place with
      | some target => (true, standing arena top target)
      | none => (false, standing arena top place) := by
  rw [go, attempt?_standing keeps isNode topIn topNode placeIn]
  cases move.target? top place <;> rfl

theorem exists_target_of_go (placeIn : place ∈ top.preorder)
    (succeeds : ((standing arena top place).go move).1 = true) :
    ∃ target ∈ top.preorder, move.target? top place = some target ∧
      ((standing arena top place).go move).2 = standing arena top target := by
  rw [go_standing keeps isNode topIn topNode placeIn] at succeeds ⊢
  cases leads : move.target? top place with
  | none => simp [leads] at succeeds
  | some target => exact ⟨target, target?_mem_preorder placeIn leads, rfl, rfl⟩

theorem exists_standing_run (moves : List Move) (placeIn : place ∈ top.preorder) :
    ∃ reached ∈ top.preorder,
      (standing arena top place).run moves = standing arena top reached := by
  induction moves generalizing place with
  | nil => exact ⟨place, placeIn, rfl⟩
  | cons move moves ih =>
      rw [run, List.foldl_cons, go_standing keeps isNode topIn topNode placeIn]
      cases leads : move.target? top place with
      | none => exact ih placeIn
      | some target => exact ih (target?_mem_preorder placeIn leads)

end

/-- A cursor that was created at a node of an arena, with the given elements at and
below the node, obeys its laws. -/
structure Lawful (arena : Arena) (number : Nat) (elements : List Handle) (cursor : Cursor) :
    Prop where
  arena_eq : cursor.arena = arena
  root_eq : cursor.root = number
  /-- The cursor is at its root or below it. -/
  inside : cursor.here ∈ elements
  /-- As many children lead from the root to the cursor as it is deep, and no other
  number does. -/
  depth : ∀ steps, arena.Below (.node number) cursor.here steps ↔ steps = cursor.depth
  /-- A move that fails leaves the cursor where it is. -/
  fails : ∀ move, (cursor.go move).1 = false → (cursor.go move).2 = cursor
  next_previous :
    (cursor.go .next).1 = true → (cursor.go .next).2.go .previous = (true, cursor)
  previous_next :
    (cursor.go .previous).1 = true → (cursor.go .previous).2.go .next = (true, cursor)
  /-- Going up undoes going down. -/
  descent_parent : ∀ move, move.descends = true → (cursor.go move).1 = true →
    (cursor.go move).2.go .parent = (true, cursor)

theorem go_of_fails {cursor : Cursor} (fails : (cursor.go move).1 = false) :
    (cursor.go move).2 = cursor := by
  rw [go] at fails ⊢
  cases moved : move.attempt? cursor with
  | none => rfl
  | some moved => simp_all

section

variable (keeps : arena.Keeps tree) (isNode : tree.isNode = true)
  (topIn : top ∈ preorder ⟨tree, []⟩) (topNode : top.isNode = true)

include keeps isNode topIn topNode

theorem lawful_standing (placeIn : place ∈ top.preorder) :
    (standing arena top place).Lawful arena (Crumb.nodesBefore top.above)
      (top.preorder.map Place.handle) where
  arena_eq := rfl
  root_eq := rfl
  inside := List.mem_map_of_mem placeIn
  depth steps := by
    have member := Place.preorder_subset_preorder topIn _ placeIn
    have atMost := Place.depth_le_of_mem_preorder placeIn
    rw [← Place.handle_of_isNode topNode, keeps.below_iff topIn,
      depth_standing keeps isNode topIn topNode placeIn]
    constructor
    · rintro ⟨other, otherIn, same, depth⟩
      obtain rfl : other = place :=
        Arena.handle_injective (Place.preorder_subset_preorder topIn _ otherIn) member same
      omega
    · intro same
      exact ⟨place, placeIn, rfl, by omega⟩
  fails move := go_of_fails
  next_previous succeeds := by
    obtain ⟨target, targetIn, leads, moved⟩ :=
      exists_target_of_go keeps isNode topIn topNode placeIn succeeds
    rw [moved, go_standing keeps isNode topIn topNode targetIn,
      target?_previous_of_next placeIn leads]
  previous_next succeeds := by
    obtain ⟨target, targetIn, leads, moved⟩ :=
      exists_target_of_go keeps isNode topIn topNode placeIn succeeds
    rw [moved, go_standing keeps isNode topIn topNode targetIn,
      target?_next_of_previous placeIn leads]
  descent_parent move down succeeds := by
    obtain ⟨target, targetIn, leads, moved⟩ :=
      exists_target_of_go keeps isNode topIn topNode placeIn succeeds
    rw [moved, go_standing keeps isNode topIn topNode targetIn,
      target?_parent_of_mem_children placeIn (mem_children_of_target? down leads)]

/-- Any moves keep a cursor lawful. -/
theorem lawful_run (moves : List Move) :
    ((atNode arena (Crumb.nodesBefore top.above)).run moves).Lawful arena
      (Crumb.nodesBefore top.above) (top.preorder.map Place.handle) := by
  obtain ⟨place, placeIn, reached⟩ :=
    exists_standing_run keeps isNode topIn topNode moves (Place.mem_preorder_self top)
  rw [atNode_eq_standing topNode, reached]
  exact lawful_standing keeps isNode topIn topNode placeIn

end

end Cursor
end Asm6502
