import Asm6502.Proofs.ArenaWalks
import Asm6502.Tree.Cursor

/-!
# Walks of a cursor

A cursor that is moved on visits every place below its root once, parents before
children, and then stays below the root.  What it has yet to visit is not stored
anywhere: behind a place there are the later siblings of the place, then those of its
parent, and so on up to the root.
-/

namespace Asm6502

open Place (preorder)

namespace Cursor

/-- The places that a walk over all below `top` visits behind a place and all below
it. -/
inductive Later (top : Place) : Place → List Place → Prop
  | top : Later top top []
  | child {parent place : Place} {before behind later : List Place} :
      Later top parent later → parent.children = before ++ place :: behind →
        Later top place (behind.flatMap preorder ++ later)

/-- The places that a walk over all below `top` visits behind a place. -/
inductive Ahead (top place : Place) : List Place → Prop
  | intro {later : List Place} :
      Later top place later → Ahead top place (place.children.flatMap preorder ++ later)

variable {arena : Arena} {tree : Tree} {top place : Place} {later rest : List Place}

theorem ahead_top (top : Place) : Ahead top top top.preorder.tail := by
  have ahead : Ahead top top (top.children.flatMap preorder ++ []) := .intro .top
  rw [Place.preorder_eq_cons, List.tail_cons]
  rwa [List.append_nil] at ahead

/-- The first place behind another one, and what is behind it. -/
theorem Later.ahead {parent next : Place} {before behind : List Place}
    (above : Later top parent later)
    (children : parent.children = before ++ next :: behind) :
    Ahead top next (next.children.flatMap preorder ++ (behind.flatMap preorder ++ later)) :=
  .intro (.child above children)

theorem Later.mem_preorder (behind : Later top place later) : place ∈ top.preorder := by
  induction behind with
  | top => exact Place.mem_preorder_self top
  | child _ children ih =>
      exact Place.children_subset_preorder ih _ (by simp [children])

theorem Later.depth_le (behind : Later top place later) : top.depth ≤ place.depth := by
  induction behind with
  | top => exact Nat.le_refl _
  | child _ children ih =>
      have deeper := Place.depth_of_children_eq children
      omega

theorem Later.exists_split (behind : Later top place later) :
    ∃ earlier, top.preorder = earlier ++ (place.preorder ++ later) := by
  induction behind with
  | top => exact ⟨[], by simp⟩
  | @child parent place before behind later _ children ih =>
      obtain ⟨earlier, split⟩ := ih
      refine ⟨earlier ++ parent :: before.flatMap preorder, ?_⟩
      rw [split, Place.preorder_of_children_eq children]
      simp only [List.append_assoc]

theorem Ahead.length_lt (ahead : Ahead top place rest) :
    rest.length < top.preorder.length := by
  cases ahead with
  | intro behind =>
      obtain ⟨earlier, split⟩ := behind.exists_split
      rw [split, Place.preorder_eq_cons place]
      simp only [List.length_append, List.length_cons]
      omega

/-- A cursor in an arena that was created at a place and stands at a place. -/
def standing (arena : Arena) (top place : Place) : Cursor :=
  ⟨arena, Crumb.nodesBefore top.above, place.handle⟩

theorem rank_lt {parent : Place} {before behind : List Place} (keeps : arena.Keeps tree)
    (member : parent ∈ preorder ⟨tree, []⟩)
    (children : parent.children = before ++ place :: behind) :
    (standing arena top parent).rank < (standing arena top place).rank := by
  have childIn : place ∈ parent.children := by simp [children]
  have node := Place.isNode_of_mem_children childIn
  have has := keeps.has member
  rw [Place.handle_of_isNode node] at has
  have above := Place.above_of_children_eq children
  rw [rank, rank, standing, standing, Place.handle_of_isNode node]
  obtain ⟨focus, surroundings⟩ := place
  cases focus with
  | token kind length => exact has
  | node kind trees =>
      obtain rfl : surroundings = _ := above
      simp only [Place.handle, Crumb.nodesBefore]
      omega

/-- Where a cursor is led: to the first of the places that are left to visit. -/
inductive Led (arena : Arena) (top : Place) : List Place → Option (Bool × Cursor) → Prop
  | nowhere {element : Handle} :
      Led arena top [] (some (false, ⟨arena, Crumb.nodesBefore top.above, element⟩))
  | next {place : Place} {rest : List Place} :
      Ahead top place rest → Led arena top (place :: rest) (some (true, standing arena top place))

section

variable (keeps : arena.Keeps tree) (isNode : tree.isNode = true)
  (topIn : top ∈ preorder ⟨tree, []⟩) (topNode : top.isNode = true)

include topIn topNode

theorem atRoot_standing (member : place ∈ preorder ⟨tree, []⟩) :
    (standing arena top place).atRoot = true ↔ place = top := by
  rw [atRoot, standing, beq_iff_eq, ← Place.handle_of_isNode topNode]
  constructor
  · exact Arena.handle_injective member topIn
  · rintro rfl
    rfl

include keeps isNode

theorem led_climb (behind : Later top place later) :
    Led arena top later (standing arena top place).climb := by
  induction behind with
  | top =>
      have atRoot : (standing arena top top).atRoot = true :=
        (atRoot_standing topIn topNode topIn).mpr rfl
      rw [climb]
      simp only [next?, parent?, atRoot, if_true]
      exact .nowhere
  | @child parent place before behind later above children ih =>
      have parentIn := Place.preorder_subset_preorder topIn _ above.mem_preorder
      have placeIn := Place.preorder_subset_preorder topIn _ (above.child children).mem_preorder
      have notRoot : (standing arena top place).atRoot = false := by
        rw [Bool.eq_false_iff, Ne, atRoot_standing topIn topNode placeIn]
        rintro rfl
        have deeper := Place.depth_of_children_eq children
        have atMost := above.depth_le
        omega
      have next := keeps.next? placeIn isNode
      rw [Place.next?_of_children_eq children] at next
      rw [climb]
      cases behind with
      | cons sibling others =>
          have siblings : parent.children = (before ++ [place]) ++ sibling :: others := by
            simp [children]
          have step : (standing arena top place).next? = some (standing arena top sibling) := by
            rw [Cursor.next?, notRoot]
            simp [goTo, standing, next]
          rw [step, List.flatMap_cons, List.append_assoc, Place.preorder_eq_cons]
          exact .next (above.ahead siblings)
      | nil =>
          -- The last child hands over to its parent, from where the climb is shorter.
          have stuck : (standing arena top place).next? = none := by
            rw [Cursor.next?, notRoot]
            simp [goTo, standing, next]
          have childIn : place ∈ parent.children := by simp [children]
          have up := keeps.parent? placeIn isNode
          rw [Place.parent?_of_mem_children childIn] at up
          have step : (standing arena top place).parent? = some (standing arena top parent) := by
            rw [Cursor.parent?, notRoot]
            simp [goTo, standing, up]
          have lower : (standing arena top parent).rank < (standing arena top place).rank :=
            rank_lt keeps parentIn children
          simp only [stuck, step, lower, if_true]
          exact ih

/-- Moving on visits all places in order. -/
theorem led_advance (ahead : Ahead top place rest) :
    Led arena top rest (standing arena top place).advance := by
  cases ahead with
  | @intro later behind =>
      have placeIn := Place.preorder_subset_preorder topIn _ behind.mem_preorder
      have child := keeps.firstChild? placeIn
      rw [advance]
      cases children : place.children with
      | nil =>
          -- The last child hands over to its parent, from where the climb is shorter.
          have stuck : (standing arena top place).firstChild? = none := by
            simp [Cursor.firstChild?, goTo, standing, child, children]
          rw [stuck]
          exact led_climb keeps isNode topIn topNode behind
      | cons first others =>
          have step : (standing arena top place).firstChild? =
              some (standing arena top first) := by
            simp [Cursor.firstChild?, goTo, standing, child, children]
          rw [step, List.flatMap_cons, List.append_assoc, Place.preorder_eq_cons]
          have split : place.children = [] ++ first :: others := children
          exact .next (behind.ahead split)

end

end Cursor
end Asm6502
