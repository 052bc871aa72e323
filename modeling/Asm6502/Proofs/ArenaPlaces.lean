import Asm6502.Proofs.ArenaLayout
import Asm6502.Proofs.PlaceNeighbours

/-!
# Places in an arena

In the arena of a tree every place has an entry of its own, and every entry is
that of a place.  What the arena answers about an element, and where it leads from
there, is what the place says.
-/

namespace Asm6502

open Place (preorder below among)

namespace Arena

/-- The arena has one entry for each place of the tree, in text order. -/
structure Keeps (arena : Arena) (tree : Tree) : Prop where
  nodes : arena.nodes = (nodeEntries (preorder ⟨tree, []⟩)).toArray
  tokens : arena.tokens = (tokenEntries (preorder ⟨tree, []⟩)).toArray
  slots : arena.slots = (slotsOf (preorder ⟨tree, []⟩)).toArray

/-- The arena of a tree over a text. -/
structure Over (arena : Arena) (text : Bytes) (tree : Tree) : Prop
    extends Keeps arena tree where
  covered : arena.text = text.toArray
  isNode : tree.isNode = true
  length : tree.length = text.length

theorem over_of_ofTree? {arena : Arena} {text : Bytes} {tree : Tree}
    (made : ofTree? text tree = some arena) : arena.Over text tree := by
  cases tree with
  | token kind length => simp [ofTree?] at made
  | node kind trees =>
      by_cases length : (Tree.node kind trees).length = text.length
      · rw [ofTree?_node length, Option.some_inj] at made
        subst made
        exact ⟨⟨rfl, rfl, rfl⟩, rfl, rfl, length⟩
      · simp [ofTree?, length] at made

theorem isSome_ofTree? {text : Bytes} {tree : Tree} (isNode : tree.isNode = true)
    (length : tree.length = text.length) : ∃ arena, ofTree? text tree = some arena := by
  cases tree with
  | token => contradiction
  | node kind trees => exact ⟨_, ofTree?_node length⟩

end Arena

namespace Place

variable {tree : Tree}

theorem map_nodesBefore_preorder (tree : Tree) :
    ((preorder ⟨tree, []⟩).filter isNode).map (fun place => Crumb.nodesBefore place.above) =
      List.range' 0 tree.nodeCount := by
  cases tree with
  | token => rfl
  | node kind trees =>
      rw [preorder_node, List.filter_cons_of_pos rfl, List.map_cons, map_nodesBefore]
      simp [Tree.totalNodeCount, Tree.nodeCount, Crumb.nodesBefore, List.range'_succ]

theorem map_tokensBefore_preorder (place : Place) :
    (place.preorder.filter isToken).map (fun token => Crumb.tokensBefore token.above) =
      List.range' (Crumb.tokensBefore place.above) place.focus.tokenCount := by
  obtain ⟨focus, above⟩ := place
  cases focus with
  | token => rfl
  | node kind trees =>
      rw [preorder_node, List.filter_cons_of_neg (by simp [isToken, Tree.isToken, Tree.isNode]),
        map_tokensBefore]
      simp [Tree.totalTokenCount, Tree.tokenCount]

theorem handle_of_isNode {place : Place} (isNode : place.isNode = true) :
    place.handle = .node (Crumb.nodesBefore place.above) := by
  obtain ⟨focus, above⟩ := place
  cases focus with
  | token => contradiction
  | node => rfl

theorem handle_of_isToken {place : Place} (isToken : place.isToken = true) :
    place.handle = .token (Crumb.tokensBefore place.above) := by
  obtain ⟨focus, above⟩ := place
  cases focus with
  | token => rfl
  | node => contradiction

theorem isToken_handle (place : Place) : place.handle.isToken = place.isToken := by
  obtain ⟨focus, above⟩ := place
  cases focus <;> rfl

theorem map_handle_tokens (place : Place) :
    place.tokens.map handle =
      (List.range' (Crumb.tokensBefore place.above) place.focus.tokenCount).map .token := by
  rw [← map_tokensBefore_preorder, List.map_map, tokens]
  refine List.map_congr_left fun token member => ?_
  exact handle_of_isToken (List.mem_filter.mp member).2

end Place

namespace Arena

/-- An item stands where its number says, if the numbers count the items. -/
theorem getElem?_of_map_eq_range {α : Type} {items : List α} {number : α → Nat}
    {count : Nat} (numbered : items.map number = List.range' 0 count) {item : α}
    (member : item ∈ items) : items[number item]? = some item := by
  obtain ⟨position, lt, rfl⟩ := List.getElem_of_mem member
  have here : number items[position] = position := by
    have ltMapped : position < (items.map number).length := by simpa using lt
    have mapped : (items.map number)[position] = number items[position] :=
      List.getElem_map number
    rw [← mapped]
    simp [numbered]
  rw [here, List.getElem?_eq_getElem lt]

/-- Items with one number are the same, if the numbers count the items. -/
theorem eq_of_map_eq_range {α : Type} {items : List α} {number : α → Nat} {count : Nat}
    (numbered : items.map number = List.range' 0 count) {item other : α}
    (member : item ∈ items) (otherIn : other ∈ items) (same : number item = number other) :
    item = other := by
  have found := getElem?_of_map_eq_range numbered member
  rw [same, getElem?_of_map_eq_range numbered otherIn] at found
  exact (Option.some_inj.mp found).symm

/-- Every number is that of an item, if the numbers count the items. -/
theorem exists_of_map_eq_range {α : Type} {items : List α} {number : α → Nat} {count : Nat}
    (numbered : items.map number = List.range' 0 count) {position : Nat}
    (lt : position < items.length) : ∃ item ∈ items, number item = position := by
  have counted : position < count := by
    have lengths := congrArg List.length numbered
    simp only [List.length_map, List.length_range'] at lengths
    omega
  have member : position ∈ items.map number := by simp [numbered, counted]
  simpa using member

theorem exists_slots_of_mem_preorder {tree : Tree} {place : Place}
    (member : place ∈ preorder ⟨tree, []⟩) :
    ∃ earlier later,
      slotsOf (preorder ⟨tree, []⟩) = earlier ++ (place.children.map Place.handle ++ later) ∧
        Crumb.slotsBefore place.above = earlier.length := by
  cases tree with
  | token kind length =>
      obtain rfl : place = _ := by simpa [preorder, Place.preorderOnto] using member
      exact ⟨[], [], rfl, rfl⟩
  | node kind trees =>
      rw [Place.preorder_node, List.mem_cons] at member
      rw [Place.preorder_node, slotsOf_node]
      rcases member with rfl | inside
      · exact ⟨[], _, rfl, rfl⟩
      · obtain ⟨earlier, later, split, count⟩ := exists_slots_of_mem_below inside
        refine ⟨(among kind [] [] trees).map Place.handle ++ earlier, later, ?_, ?_⟩
        · rw [split]
          simp only [List.append_assoc]
        · simp only [List.length_append, List.length_map, length_among, count,
            Tree.totalSlotCount, Crumb.slotsBefore, List.length_nil]
          omega

namespace Keeps

variable {arena : Arena} {tree : Tree} {place : Place} (keeps : arena.Keeps tree)
  (member : place ∈ preorder ⟨tree, []⟩)

include keeps member

theorem nodeEntry (isNode : place.isNode = true) :
    arena.nodeEntry (Crumb.nodesBefore place.above) = place.nodeEntry := by
  have found := getElem?_of_map_eq_range (Place.map_nodesBefore_preorder tree)
    (List.mem_filter.mpr ⟨member, isNode⟩)
  simp [Arena.nodeEntry, keeps.nodes, nodeEntries, Array.getD_eq_getD_getElem?, found]

theorem tokenEntry (isToken : place.isToken = true) :
    arena.tokenEntry (Crumb.tokensBefore place.above) = place.tokenEntry := by
  have found := getElem?_of_map_eq_range (Place.map_tokensBefore_preorder ⟨tree, []⟩)
    (List.mem_filter.mpr ⟨member, isToken⟩)
  simp [Arena.tokenEntry, keeps.tokens, tokenEntries, Array.getD_eq_getD_getElem?, found]

theorem kind : arena.kind place.handle = place.kind := by
  obtain ⟨focus, above⟩ := place
  cases focus with
  | token => exact congrArg TokenEntry.kind (keeps.tokenEntry member rfl)
  | node => exact congrArg NodeEntry.kind (keeps.nodeEntry member rfl)

theorem span : arena.span place.handle = place.span := by
  obtain ⟨focus, above⟩ := place
  cases focus with
  | token => exact congrArg TokenEntry.span (keeps.tokenEntry member rfl)
  | node => exact congrArg NodeEntry.span (keeps.nodeEntry member rfl)

theorem index : arena.index place.handle = place.index := by
  obtain ⟨focus, above⟩ := place
  cases focus with
  | token => exact congrArg TokenEntry.index (keeps.tokenEntry member rfl)
  | node => exact congrArg NodeEntry.index (keeps.nodeEntry member rfl)

theorem children : arena.children place.handle = place.children.map Place.handle := by
  obtain ⟨focus, above⟩ := place
  cases focus with
  | token => rfl
  | node kind trees =>
      obtain ⟨earlier, later, split, count⟩ := exists_slots_of_mem_preorder member
      have entry := keeps.nodeEntry member rfl
      have length : (among kind above [] trees).length = trees.length := length_among _ _ _ _
      simp only [Place.handle, Arena.children, entry, keeps.slots, split, Place.nodeEntry,
        Place.children, Tree.children] at count ⊢
      simp [count, List.extract_eq_take_drop, ← length]

theorem child? (isNode : place.isNode = true) (position : Nat) :
    arena.child? (Crumb.nodesBefore place.above) position =
      (place.children[position]?).map Place.handle := by
  obtain ⟨earlier, later, split, count⟩ := exists_slots_of_mem_preorder member
  have length := Place.length_children place
  simp only [Arena.child?, keeps.nodeEntry member isNode, Place.nodeEntry, keeps.slots,
    split, count, ← length, Nat.add_lt_add_iff_left]
  by_cases inside : position < place.children.length
  · rw [if_pos inside, List.getElem?_toArray, List.getElem?_append_right (by omega),
      Nat.add_sub_cancel_left, List.getElem?_append_left (by simpa using inside),
      List.getElem?_map]
  · simp [inside]

theorem firstChild? :
    arena.firstChild? place.handle = place.children.head?.map Place.handle := by
  obtain ⟨focus, above⟩ := place
  cases focus with
  | token => rfl
  | node kind trees =>
      rw [List.head?_eq_getElem?, ← keeps.child? member rfl]
      rfl

theorem parent? (isNode : tree.isNode = true) :
    (arena.parent? place.handle).map .node = place.parent?.map Place.handle := by
  obtain ⟨focus, above⟩ := place
  cases focus with
  | node kind trees =>
      simp only [Place.handle, Arena.parent?, keeps.nodeEntry member rfl, Place.nodeEntry]
      cases above <;> rfl
  | token kind length =>
      simp only [Place.handle, Arena.parent?, keeps.tokenEntry member rfl, Place.tokenEntry]
      cases above with
      | cons crumb outer => rfl
      | nil =>
          have isRoot := Place.eq_root_of_parent? member rfl
          simp only [Place.mk.injEq] at isRoot
          rw [← isRoot.1] at isNode
          contradiction

variable (isNode : tree.isNode = true)

include isNode

theorem bind_parent? (after : Nat → Option Handle) :
    (arena.parent? place.handle).bind after =
      place.parent?.bind fun parent => after (Crumb.nodesBefore parent.above) := by
  have up := keeps.parent? member isNode
  cases above : place.parent? with
  | none =>
      rw [above] at up
      simp_all
  | some parent =>
      have node := Place.isNode_of_mem_children (Place.mem_children_of_parent? above)
      rw [above, Option.map_some, Place.handle_of_isNode node] at up
      obtain ⟨number, found, same⟩ := Option.map_eq_some_iff.mp up
      rw [found]
      simp only [Handle.node.injEq] at same
      simp [same]

theorem next? : arena.next? place.handle = place.next?.map Place.handle := by
  rw [Arena.next?, keeps.bind_parent? member isNode, keeps.index member]
  cases up : place.parent? with
  | none =>
      rw [Place.eq_root_of_parent? member up]
      rfl
  | some parent =>
      have node := Place.isNode_of_mem_children (Place.mem_children_of_parent? up)
      rw [Option.bind_some, keeps.child? (Place.parent_mem_preorder member up) node,
        (Place.children_around up).2.1]

theorem previous? : arena.previous? place.handle = place.previous?.map Place.handle := by
  rw [Arena.previous?, keeps.bind_parent? member isNode, keeps.index member]
  cases up : place.parent? with
  | none =>
      rw [Place.eq_root_of_parent? member up]
      rfl
  | some parent =>
      have node := Place.isNode_of_mem_children (Place.mem_children_of_parent? up)
      rw [Option.bind_some, keeps.child? (Place.parent_mem_preorder member up) node,
        ← (Place.children_around up).2.2]
      split <;> rfl

end Keeps

namespace Keeps

variable {arena : Arena} {tree : Tree} {place : Place} (keeps : arena.Keeps tree)
  (member : place ∈ preorder ⟨tree, []⟩) (isNode : place.isNode = true)

include keeps member isNode

theorem leaves :
    arena.leaves (Crumb.nodesBefore place.above) = place.tokens.map Place.handle := by
  rw [Place.map_handle_tokens, Arena.leaves, keeps.nodeEntry member isNode]
  simp [Place.nodeEntry]

theorem hasError :
    arena.hasError (Crumb.nodesBefore place.above) = place.focus.hasError := by
  rw [Arena.hasError, keeps.nodeEntry member isNode]
  rfl

end Keeps

namespace Keeps

variable {arena : Arena} {tree : Tree} {place other : Place} (keeps : arena.Keeps tree)

include keeps

theorem has (member : place ∈ preorder ⟨tree, []⟩) : arena.Has place.handle := by
  obtain ⟨focus, above⟩ := place
  cases focus with
  | token kind length =>
      have found := getElem?_of_map_eq_range (Place.map_tokensBefore_preorder ⟨tree, []⟩)
        (List.mem_filter.mpr ⟨member, rfl⟩)
      have bound := (List.getElem?_eq_some_iff.mp found).1
      simpa [Has, Place.handle, keeps.tokens, tokenEntries] using bound
  | node kind trees =>
      have found := getElem?_of_map_eq_range (Place.map_nodesBefore_preorder tree)
        (List.mem_filter.mpr ⟨member, rfl⟩)
      have bound := (List.getElem?_eq_some_iff.mp found).1
      simpa [Has, Place.handle, keeps.nodes, nodeEntries] using bound

theorem size : arena.size = (preorder ⟨tree, []⟩).length := by
  have others : (fun place : Place => decide ¬place.isNode = true) = Place.isToken := by
    funext place
    simp [Place.isToken, Tree.isToken, Place.isNode]
  rw [List.length_eq_countP_add_countP (p := Place.isNode), others,
    List.countP_eq_length_filter, List.countP_eq_length_filter]
  simp [Arena.size, keeps.nodes, keeps.tokens, nodeEntries, tokenEntries]

theorem exists_node_of_has {number : Nat} (has : arena.Has (.node number)) :
    ∃ place ∈ preorder ⟨tree, []⟩,
      place.isNode = true ∧ Crumb.nodesBefore place.above = number := by
  have bound : number < ((preorder ⟨tree, []⟩).filter Place.isNode).length := by
    simpa [Has, keeps.nodes, nodeEntries] using has
  obtain ⟨place, member, same⟩ :=
    exists_of_map_eq_range (Place.map_nodesBefore_preorder tree) bound
  obtain ⟨inside, isNode⟩ := List.mem_filter.mp member
  exact ⟨place, inside, isNode, same⟩

theorem exists_place_of_has {element : Handle} (has : arena.Has element) :
    ∃ place ∈ preorder ⟨tree, []⟩, place.handle = element := by
  cases element with
  | node number =>
      obtain ⟨place, member, isNode, rfl⟩ := keeps.exists_node_of_has has
      exact ⟨place, member, Place.handle_of_isNode isNode⟩
  | token number =>
      have bound : number < ((preorder ⟨tree, []⟩).filter Place.isToken).length := by
        simpa [Has, keeps.tokens, tokenEntries] using has
      obtain ⟨place, member, rfl⟩ :=
        exists_of_map_eq_range (Place.map_tokensBefore_preorder ⟨tree, []⟩) bound
      obtain ⟨inside, isToken⟩ := List.mem_filter.mp member
      exact ⟨place, inside, Place.handle_of_isToken isToken⟩

end Keeps

/-- Different places of a tree are different elements. -/
theorem handle_injective {tree : Tree} {place other : Place}
    (member : place ∈ preorder ⟨tree, []⟩) (otherIn : other ∈ preorder ⟨tree, []⟩)
    (same : place.handle = other.handle) : place = other := by
  have sameShape : place.isToken = other.isToken := by
    rw [← Place.isToken_handle, ← Place.isToken_handle, same]
  cases isToken : place.isToken with
  | true =>
      have otherToken : other.isToken = true := sameShape ▸ isToken
      rw [Place.handle_of_isToken isToken, Place.handle_of_isToken otherToken,
        Handle.token.injEq] at same
      exact eq_of_map_eq_range (Place.map_tokensBefore_preorder ⟨tree, []⟩)
        (List.mem_filter.mpr ⟨member, isToken⟩)
        (List.mem_filter.mpr ⟨otherIn, otherToken⟩) same
  | false =>
      have isNode : place.isNode = true := by
        simpa [Place.isToken, Tree.isToken, Place.isNode] using isToken
      have otherNode : other.isNode = true := by
        rw [sameShape] at isToken
        simpa [Place.isToken, Tree.isToken, Place.isNode] using isToken
      rw [Place.handle_of_isNode isNode, Place.handle_of_isNode otherNode,
        Handle.node.injEq] at same
      exact eq_of_map_eq_range (Place.map_nodesBefore_preorder tree)
        (List.mem_filter.mpr ⟨member, isNode⟩)
        (List.mem_filter.mpr ⟨otherIn, otherNode⟩) same

end Arena
end Asm6502
