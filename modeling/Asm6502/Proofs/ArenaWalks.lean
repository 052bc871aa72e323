import Asm6502.Proofs.ArenaPlaces
import Mathlib.Data.List.Nodup

/-!
# Walks in an arena

What stands at and below an element, parents before children, can be listed by
asking the arena for children only.  In the arena of a tree every element is listed
once, and the tokens among those listed are the tokens of the node.
-/

namespace Asm6502

open Place (preorder)

namespace Arena

mutual

/-- The elements at and below an element, parents before children. -/
inductive Lists (arena : Arena) : Handle → List Handle → Prop
  | here {element : Handle} {below : List Handle} :
      ListsAll arena (arena.children element) below → Lists arena element (element :: below)

/-- The elements at and below consecutive elements. -/
inductive ListsAll (arena : Arena) : List Handle → List Handle → Prop
  | nil : ListsAll arena [] []
  | cons {element : Handle} {rest first others : List Handle} :
      Lists arena element first → ListsAll arena rest others →
        ListsAll arena (element :: rest) (first ++ others)

end

variable {arena : Arena} {tree : Tree} {place : Place}

theorem listsAll_flatMap {places : List Place}
    (each : ∀ place ∈ places, arena.Lists place.handle (place.preorder.map Place.handle)) :
    arena.ListsAll (places.map Place.handle)
      ((places.flatMap preorder).map Place.handle) := by
  induction places with
  | nil => exact .nil
  | cons place rest ih =>
      rw [List.map_cons, List.flatMap_cons, List.map_append]
      exact .cons (each place (by simp)) (ih fun other member => each other (by simp [member]))

/-- Listing below a place is walking over it. -/
theorem Keeps.lists (keeps : arena.Keeps tree) (member : place ∈ preorder ⟨tree, []⟩) :
    arena.Lists place.handle (place.preorder.map Place.handle) := by
  obtain ⟨focus, above⟩ := place
  induction focus using Tree.induct generalizing above with
  | token kind length => exact .here .nil
  | node kind trees ih =>
      rw [Place.preorder_eq_cons, List.map_cons]
      refine .here ?_
      rw [keeps.children member]
      refine listsAll_flatMap fun child childIn => ?_
      have inside := Place.children_subset_preorder member child childIn
      have part := Place.focus_mem_children childIn
      exact ih child.focus part child.above inside

theorem nodup_of_filter {α : Type} {items : List α} (holds : α → Bool)
    (some : (items.filter holds).Nodup)
    (others : (items.filter fun item => !holds item).Nodup) : items.Nodup := by
  refine (List.filter_append_perm holds items).nodup_iff.mp ?_
  refine List.nodup_append.mpr ⟨some, others, fun item member other otherIn same => ?_⟩
  have here := (List.mem_filter.mp member).2
  have there := (List.mem_filter.mp otherIn).2
  rw [← same, here] at there
  contradiction

theorem filter_map_handle (places : List Place) :
    (places.map Place.handle).filter Handle.isToken =
      (places.filter Place.isToken).map Place.handle := by
  rw [List.filter_map]
  exact congrArg _ (List.filter_congr fun place _ => Place.isToken_handle place)

theorem nodup_handles (tree : Tree) : ((preorder ⟨tree, []⟩).map Place.handle).Nodup := by
  refine nodup_of_filter Handle.isToken ?_ ?_
  · rw [filter_map_handle, ← Place.tokens, Place.map_handle_tokens]
    exact List.Nodup.map (fun _ _ same => Handle.token.inj same) List.nodup_range'
  · have nodes : ((preorder ⟨tree, []⟩).map Place.handle).filter
        (fun element => !element.isToken) =
          (List.range' 0 tree.nodeCount).map .node := by
      rw [← Place.map_nodesBefore_preorder, List.filter_map, List.map_map]
      have same : (preorder ⟨tree, []⟩).filter
          ((fun element => !element.isToken) ∘ Place.handle) =
            (preorder ⟨tree, []⟩).filter Place.isNode :=
        List.filter_congr fun place _ => by
          simp [Place.isToken_handle, Place.isToken, Tree.isToken, Place.isNode]
      rw [same]
      exact List.map_congr_left fun place member =>
        Place.handle_of_isNode (List.mem_filter.mp member).2
    rw [nodes]
    exact List.Nodup.map (fun _ _ same => Handle.node.inj same) List.nodup_range'

theorem length_tokens_flatMap (places : List Place) :
    ((places.flatMap preorder).filter Place.isToken).length =
      Tree.totalTokenCount (places.map Place.focus) := by
  induction places with
  | nil => rfl
  | cons place rest ih =>
      have first := congrArg List.length (Place.map_tokensBefore_preorder place)
      rw [List.length_map, List.length_range'] at first
      rw [List.flatMap_cons, List.filter_append, List.length_append, first, ih]
      rfl

theorem totalTokenCount_reverse (trees : List Tree) :
    Tree.totalTokenCount trees.reverse = Tree.totalTokenCount trees := by
  have append (first second : List Tree) : Tree.totalTokenCount (first ++ second) =
      Tree.totalTokenCount first + Tree.totalTokenCount second := by
    induction first with
    | nil => simp [Tree.totalTokenCount]
    | cons tree rest ih => simp [Tree.totalTokenCount, ih, Nat.add_assoc]
  induction trees with
  | nil => rfl
  | cons tree rest ih =>
      simp only [List.reverse_cons, append, ih, Tree.totalTokenCount]
      omega

/-- What stands at and below a place is a part of the walk over the tree, and the
tokens in front of it have been counted. -/
theorem exists_split_preorder (member : place ∈ preorder ⟨tree, []⟩) :
    ∃ earlier later, preorder ⟨tree, []⟩ = earlier ++ (place.preorder ++ later) ∧
      (earlier.filter Place.isToken).length = Crumb.tokensBefore place.above := by
  refine Place.forall_mem_preorder
    (motive := fun place =>
      ∃ earlier later, preorder ⟨tree, []⟩ = earlier ++ (place.preorder ++ later) ∧
        (earlier.filter Place.isToken).length = Crumb.tokensBefore place.above)
    ?_ ⟨[], [], by simp, rfl⟩ place member
  rintro parent ⟨earlier, later, split, count⟩ child childIn
  obtain ⟨first, second, children⟩ := List.append_of_mem childIn
  refine ⟨earlier ++ parent :: first.flatMap preorder, second.flatMap preorder ++ later,
    ?_, ?_⟩
  · rw [split, Place.preorder_of_children_eq children]
    simp only [List.append_assoc]
  · have node : ¬parent.isToken = true := by
      simpa [Place.isToken, Tree.isToken, Place.isNode] using
        Place.isNode_of_mem_children childIn
    rw [Place.above_of_children_eq children, Crumb.tokensBefore, totalTokenCount_reverse,
      List.filter_append, List.filter_cons_of_neg node, List.length_append, count,
      length_tokens_flatMap, Nat.add_comm]

theorem Keeps.has_iff (keeps : arena.Keeps tree) (element : Handle) :
    arena.Has element ↔ element ∈ (preorder ⟨tree, []⟩).map Place.handle := by
  rw [List.mem_map]
  constructor
  · intro has
    exact keeps.exists_place_of_has has
  · rintro ⟨place, member, rfl⟩
    exact keeps.has member

end Arena
end Asm6502
