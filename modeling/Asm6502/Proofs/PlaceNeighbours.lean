import Asm6502.Proofs.TreePlaces

/-!
# Neighbours of places

A child knows its parent and its position there, and the other children stand on
either side.  So going up from a child and down again leads back, and the places
of a tree are its root and the children of its places.
-/

namespace Asm6502
namespace Place

variable {place child parent top : Place} {kind : Kind} {outer : List Crumb}
  {before trees : List Tree}

theorem getElem?_among_split (kind : Kind) (outer : List Crumb) (before first : List Tree)
    (tree : Tree) (second : List Tree) :
    (among kind outer before (first ++ tree :: second))[first.length]? =
      some ⟨tree, ⟨kind, first.reverse ++ before, second⟩ :: outer⟩ := by
  induction first generalizing before with
  | nil => rfl
  | cons other rest ih => simpa [among] using ih (other :: before)

theorem exists_split_of_getElem?_among {position : Nat}
    (found : (among kind outer before trees)[position]? = some child) :
    ∃ first second, trees = first ++ child.focus :: second ∧ first.length = position ∧
      child.above = ⟨kind, first.reverse ++ before, second⟩ :: outer := by
  induction trees generalizing before position with
  | nil => simp [among] at found
  | cons tree after ih =>
      cases position with
      | zero =>
          obtain rfl : _ = child := by simpa [among] using found
          exact ⟨[], after, rfl, rfl, rfl⟩
      | succ position =>
          have later : (among kind outer (tree :: before) after)[position]? = some child := by
            simpa [among] using found
          obtain ⟨first, second, rfl, rfl, above⟩ := ih later
          exact ⟨tree :: first, second, rfl, rfl, by simp [above]⟩

/-- What stands before a child among the children of its parent is what it knows to be
before it. -/
theorem above_of_children_eq {first second : List Place}
    (split : place.children = first ++ child :: second) :
    child.above =
      ⟨place.kind, (first.map focus).reverse, second.map focus⟩ :: place.above := by
  obtain ⟨tree, above⟩ := place
  cases tree with
  | token => simp [children] at split
  | node kind trees =>
      have found : (children ⟨.node kind trees, above⟩)[first.length]? = some child := by
        simp [split]
      obtain ⟨others, rest, treesEq, length, crumbs⟩ :=
        exists_split_of_getElem?_among found
      have focuses := congrArg (List.map focus) split
      rw [map_focus_children, List.map_append, List.map_cons] at focuses
      obtain ⟨same, sameRest⟩ := List.append_inj (treesEq.symm.trans focuses)
        (by simp [length])
      rw [crumbs, same, ← (List.cons.inj sameRest).2, List.append_nil]
      rfl

theorem length_children (place : Place) :
    place.children.length = place.focus.children.length := by
  rw [← map_focus_children, List.length_map]

theorem isNode_of_mem_children (member : child ∈ place.children) : place.isNode = true := by
  obtain ⟨focus, above⟩ := place
  cases focus with
  | token => simp [children] at member
  | node => rfl

theorem getElem?_children {position : Nat}
    (found : place.children[position]? = some child) :
    child.parent? = some place ∧ child.index = position := by
  obtain ⟨focus, above⟩ := place
  cases focus with
  | token => simp [children] at found
  | node kind trees =>
      obtain ⟨first, second, rfl, rfl, crumbs⟩ := exists_split_of_getElem?_among found
      simp [parent?, index, crumbs, Crumb.fill]

theorem parent?_of_mem_children (member : child ∈ place.children) :
    child.parent? = some place := by
  obtain ⟨position, lt, rfl⟩ := List.getElem_of_mem member
  exact (getElem?_children (List.getElem?_eq_getElem lt)).1

theorem children_around (up : place.parent? = some parent) :
    parent.children[place.index]? = some place ∧
      parent.children[place.index + 1]? = place.next? ∧
        (if place.index = 0 then none else parent.children[place.index - 1]?) =
          place.previous? := by
  obtain ⟨focus, _ | ⟨⟨kind, before, after⟩, outer⟩⟩ := place
  · simp [parent?] at up
  · obtain rfl : _ = parent := by simpa [parent?] using up
    have here := getElem?_among_split kind outer [] before.reverse focus after
    refine ⟨by simpa [children, Crumb.fill, index] using here, ?_, ?_⟩
    · cases after with
      | nil =>
          rw [next?, List.getElem?_eq_none]
          simp [length_children, Crumb.fill, Tree.children, index]
      | cons tree after =>
          have behind := getElem?_among_split kind outer []
            (before.reverse ++ [focus]) tree after
          simpa [children, Crumb.fill, index, next?] using behind
    · cases before with
      | nil => rfl
      | cons tree before =>
          have ahead := getElem?_among_split kind outer [] before.reverse tree
            (focus :: after)
          simpa [children, Crumb.fill, index, previous?] using ahead

theorem next?_eq_some_iff {other : Place} :
    place.next? = some other ↔ other.previous? = some place := by
  obtain ⟨focus, _ | ⟨⟨kind, before, _ | ⟨tree, after⟩⟩, outer⟩⟩ := place <;>
  obtain ⟨otherFocus, _ | ⟨⟨otherKind, _ | ⟨otherTree, otherBefore⟩, otherAfter⟩, _⟩⟩ :=
    other <;>
  simp only [next?, previous?, Option.some.injEq, Place.mk.injEq, List.cons.injEq,
    Crumb.mk.injEq, reduceCtorEq, false_and, and_false]
  grind

theorem mem_children_of_parent? (up : place.parent? = some parent) :
    place ∈ parent.children :=
  List.mem_of_getElem? (children_around up).1

theorem depth_of_children_eq {first second : List Place}
    (split : place.children = first ++ child :: second) : child.depth = place.depth + 1 := by
  rw [depth, above_of_children_eq split]
  rfl

theorem next?_of_children_eq {first second : List Place}
    (split : place.children = first ++ child :: second) : child.next? = second.head? := by
  have found : place.children[first.length]? = some child := by simp [split]
  obtain ⟨up, index⟩ := getElem?_children found
  rw [← (children_around up).2.1, index, split, List.getElem?_append_right (by omega)]
  cases second <;> simp

theorem preorder_of_children_eq {first second : List Place}
    (split : place.children = first ++ child :: second) :
    place.preorder =
      (place :: first.flatMap preorder) ++ (child.preorder ++ second.flatMap preorder) := by
  rw [preorder_eq_cons place, split]
  simp

theorem eq_or_mem_children (member : place ∈ top.preorder) :
    place = top ∨ ∃ parent ∈ top.preorder, place ∈ parent.children := by
  have start : top ∈ top.preorder ∧
      (top = top ∨ ∃ parent ∈ top.preorder, top ∈ parent.children) :=
    ⟨mem_preorder_self top, .inl rfl⟩
  refine (forall_mem_preorder
    (motive := fun place => place ∈ top.preorder ∧
      (place = top ∨ ∃ parent ∈ top.preorder, place ∈ parent.children))
    (fun parent holds child childIn => ?_) start place member).2
  exact ⟨children_subset_preorder holds.1 child childIn, .inr ⟨parent, holds.1, childIn⟩⟩

theorem preorder_subset_preorder (member : place ∈ top.preorder) :
    ∀ other ∈ place.preorder, other ∈ top.preorder :=
  forall_mem_preorder (fun _ below => children_subset_preorder below) member

section

variable {tree : Tree}

theorem parent_mem_preorder (member : place ∈ preorder ⟨tree, []⟩)
    (up : place.parent? = some parent) : parent ∈ preorder ⟨tree, []⟩ := by
  rcases eq_or_mem_children member with rfl | ⟨other, otherIn, childIn⟩
  · simp [parent?] at up
  · rw [parent?_of_mem_children childIn, Option.some_inj] at up
    rwa [← up]

theorem eq_root_of_parent? (member : place ∈ preorder ⟨tree, []⟩)
    (top : place.parent? = none) : place = ⟨tree, []⟩ := by
  rcases eq_or_mem_children member with rfl | ⟨other, otherIn, childIn⟩
  · rfl
  · simp [parent?_of_mem_children childIn] at top

theorem next?_mem_preorder {next : Place} (member : place ∈ preorder ⟨tree, []⟩)
    (behind : place.next? = some next) : next ∈ preorder ⟨tree, []⟩ := by
  cases up : place.parent? with
  | none =>
      rw [eq_root_of_parent? member up, next?] at behind
      contradiction
  | some parent =>
      rw [← (children_around up).2.1] at behind
      exact children_subset_preorder (parent_mem_preorder member up) _
        (List.mem_of_getElem? behind)

theorem previous?_mem_preorder {previous : Place} (member : place ∈ preorder ⟨tree, []⟩)
    (ahead : place.previous? = some previous) : previous ∈ preorder ⟨tree, []⟩ := by
  cases up : place.parent? with
  | none =>
      rw [eq_root_of_parent? member up, previous?] at ahead
      contradiction
  | some parent =>
      rw [← (children_around up).2.2] at ahead
      split at ahead
      · contradiction
      · exact children_subset_preorder (parent_mem_preorder member up) _
          (List.mem_of_getElem? ahead)

end

end Place
end Asm6502
