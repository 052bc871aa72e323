import Asm6502.Tree.Place
import Asm6502.Proofs.TreeShape

/-!
# Places of a text's tree

Walking over a place visits the place and then its children one after the other.
Children stand side by side, so their spans tile the span of their parent, and
the spans of the leaves tile the whole text.
-/

namespace Asm6502

/-- The spans are not empty, and each starts where the one before it ends. -/
def Span.Tile : (start stop : Nat) → List Span → Prop
  | start, stop, [] => start = stop
  | start, stop, span :: rest =>
      span.start = start ∧ start < span.stop ∧ Tile span.stop stop rest

namespace Tree

/-- Leaves with their spans, from an offset on. -/
def spansFrom : (start : Nat) → List (Kind × Nat) → List (Kind × Span)
  | _, [] => []
  | start, leaf :: rest =>
      (leaf.1, ⟨start, start + leaf.2⟩) :: spansFrom (start + leaf.2) rest

theorem spansFrom_append (start : Nat) (first second : List (Kind × Nat)) :
    spansFrom start (first ++ second) =
      spansFrom start first ++ spansFrom (start + leafLength first) second := by
  induction first generalizing start with
  | nil => rfl
  | cons leaf rest ih => simp [spansFrom, leafLength, ih, Nat.add_assoc]

theorem map_fst_spansFrom (start : Nat) (leaves : List (Kind × Nat)) :
    (spansFrom start leaves).map Prod.fst = leaves.map Prod.fst := by
  induction leaves generalizing start with
  | nil => rfl
  | cons leaf rest ih => simp [spansFrom, ih]

theorem tile_spansFrom {leaves : List (Kind × Nat)}
    (positive : ∀ leaf ∈ leaves, 0 < leaf.2) (start : Nat) :
    Span.Tile start (start + leafLength leaves)
      ((spansFrom start leaves).map Prod.snd) := by
  induction leaves generalizing start with
  | nil => rfl
  | cons leaf rest ih =>
      have here := positive leaf (by simp)
      refine ⟨rfl, by simp only; omega, ?_⟩
      rw [leafLength, ← Nat.add_assoc]
      exact ih (fun other member => positive other (by simp [member])) _

theorem IsInline.leaf_length_pos {tree : Tree} (shape : IsInline tree)
    {leaf : Kind × Nat} (member : leaf ∈ tree.leaves) : 0 < leaf.2 := by
  induction shape with
  | token _ positive =>
      obtain rfl : leaf = _ := by simpa [leaves] using member
      exact positive
  | node _ _ _ ih =>
      rw [leaves, allLeaves_eq_flatMap] at member
      obtain ⟨child, childIn, member⟩ := List.mem_flatMap.mp member
      exact ih child childIn member

theorem IsLineEnd.leaf_eq {ends : List Tree} (ending : IsLineEnd ends)
    {leaf : Kind × Nat} (member : leaf ∈ allLeaves ends) :
    leaf.1 = .eol ∧ 0 < leaf.2 := by
  cases ending with
  | missing => simp [allLeaves] at member
  | token positive =>
      obtain rfl : leaf = _ := by simpa [allLeaves, leaves] using member
      exact ⟨rfl, positive⟩

theorem IsPassage.leaf_length_pos {tree : Tree} (shape : IsPassage tree)
    {leaf : Kind × Nat} (member : leaf ∈ tree.leaves) : 0 < leaf.2 := by
  induction shape with
  | line shape =>
      obtain ⟨inside, ending, -⟩ := shape
      rw [leaves, allLeaves_append, List.mem_append] at member
      rcases member with inBody | inEnds
      · rw [allLeaves_eq_flatMap] at inBody
        obtain ⟨child, childIn, member⟩ := List.mem_flatMap.mp inBody
        exact (inside child childIn).leaf_length_pos member
      · exact (ending.leaf_eq inEnds).2
  | block _ _ _ ih =>
      rw [leaves, allLeaves_eq_flatMap] at member
      obtain ⟨child, childIn, member⟩ := List.mem_flatMap.mp member
      exact ih child childIn member

theorem IsLine.countP_eol_le {tree : Tree} (shape : IsLine tree) :
    tree.leaves.countP (fun leaf => leaf.1 == .eol) ≤ 1 := by
  obtain @⟨body, ends, inside, ending, -⟩ := shape
  have noneInside : (allLeaves body).countP (fun leaf => leaf.1 == .eol) = 0 := by
    rw [List.countP_eq_zero]
    intro leaf member
    rw [allLeaves_eq_flatMap] at member
    obtain ⟨child, childIn, member⟩ := List.mem_flatMap.mp member
    simpa using (inside child childIn).leaf_kind_ne member
  rw [leaves, allLeaves_append, List.countP_append, noneInside]
  cases ending <;> simp [allLeaves, leaves]

end Tree

namespace Place

mutual

theorem preorderOnto_append (outer : List Crumb) :
    ∀ (tree : Tree) (rest : List Place),
      preorderOnto outer tree rest = preorderOnto outer tree [] ++ rest
  | .token _ _, _ => rfl
  | .node kind trees, rest => by
      rw [preorderOnto, preorderOnto, preorderAmong_eq kind outer [] trees rest,
        preorderAmong_eq kind outer [] trees []]
      simp

theorem preorderAmong_eq (kind : Kind) (outer : List Crumb) (before : List Tree) :
    ∀ (trees : List Tree) (rest : List Place),
      preorderAmong kind outer before trees rest =
        (among kind outer before trees).flatMap preorder ++ rest
  | [], _ => rfl
  | tree :: after, rest => by
      rw [preorderAmong, among, List.flatMap_cons, List.append_assoc,
        preorderOnto_append (⟨kind, before, after⟩ :: outer) tree,
        preorderAmong_eq kind outer (tree :: before) after rest]
      rfl

end

theorem preorder_eq_cons (place : Place) :
    place.preorder = place :: place.children.flatMap preorder := by
  obtain ⟨focus, above⟩ := place
  cases focus with
  | token kind length => rfl
  | node kind trees =>
      rw [preorder, preorderOnto, preorderAmong_eq]
      simp [children]

theorem mem_preorder_iff {place part : Place} :
    part ∈ place.preorder ↔ part = place ∨ ∃ child ∈ place.children, part ∈ child.preorder := by
  rw [preorder_eq_cons, List.mem_cons, List.mem_flatMap]

theorem mem_preorder_self (place : Place) : place ∈ place.preorder :=
  mem_preorder_iff.mpr (.inl rfl)

theorem mem_among {kind : Kind} {outer : List Crumb} {before trees : List Tree}
    {place : Place} (member : place ∈ among kind outer before trees) :
    ∃ earlier tree after, trees = earlier ++ tree :: after ∧
      place = ⟨tree, ⟨kind, earlier.reverse ++ before, after⟩ :: outer⟩ := by
  induction trees generalizing before with
  | nil => contradiction
  | cons tree after ih =>
      rcases List.mem_cons.mp member with rfl | later
      · exact ⟨[], tree, after, rfl, rfl⟩
      · obtain ⟨earlier, other, behind, rfl, rfl⟩ := ih later
        exact ⟨tree :: earlier, other, behind, rfl, by simp⟩

theorem map_focus_among (kind : Kind) (outer : List Crumb) (before trees : List Tree) :
    (among kind outer before trees).map focus = trees := by
  induction trees generalizing before with
  | nil => rfl
  | cons tree after ih => rw [among, List.map_cons, ih]

theorem map_focus_children (place : Place) :
    place.children.map focus = place.focus.children := by
  obtain ⟨focus, above⟩ := place
  cases focus with
  | token kind length => rfl
  | node kind trees => exact map_focus_among kind above [] trees

theorem focus_mem_children {place child : Place} (member : child ∈ place.children) :
    child.focus ∈ place.focus.children := by
  rw [← map_focus_children]
  exact List.mem_map_of_mem member

/-- What passes from every place to its children holds of all that stands below
a place of which it holds. -/
theorem forall_mem_preorder {motive : Place → Prop}
    (step : ∀ place, motive place → ∀ child ∈ place.children, motive child)
    {place : Place} (start : motive place) :
    ∀ other ∈ place.preorder, motive other := by
  obtain ⟨focus, above⟩ := place
  induction focus using Tree.induct generalizing above with
  | token kind length =>
      intro other member
      obtain rfl : other = _ := by simpa [preorder, preorderOnto] using member
      exact start
  | node kind trees ih =>
      intro other member
      rcases mem_preorder_iff.mp member with rfl | ⟨child, childIn, below⟩
      · exact start
      · have childHolds := step _ start child childIn
        obtain ⟨earlier, tree, after, split, rfl⟩ := mem_among childIn
        exact ih tree (by simp [split]) _ childHolds other below

theorem children_subset_preorder {top place : Place} (member : place ∈ top.preorder) :
    ∀ child ∈ place.children, child ∈ top.preorder := by
  obtain ⟨focus, above⟩ := top
  induction focus using Tree.induct generalizing above with
  | token kind length =>
      obtain rfl : place = _ := by simpa [preorder, preorderOnto] using member
      simp [children]
  | node kind trees ih =>
      intro child childIn
      refine mem_preorder_iff.mpr (.inr ?_)
      rcases mem_preorder_iff.mp member with rfl | ⟨other, otherIn, below⟩
      · exact ⟨child, childIn, mem_preorder_self child⟩
      · obtain ⟨earlier, tree, after, split, rfl⟩ := mem_among otherIn
        exact ⟨_, otherIn, ih tree (by simp [split]) _ below child childIn⟩

theorem tile_among (kind : Kind) (outer : List Crumb) {trees : List Tree}
    (positive : ∀ tree ∈ trees, 0 < tree.length) (before : List Tree) :
    Span.Tile (Tree.totalLength before + Crumb.offset outer)
      (Tree.totalLength before + Crumb.offset outer + Tree.totalLength trees)
      ((among kind outer before trees).map span) := by
  induction trees generalizing before with
  | nil => rfl
  | cons tree after ih =>
      have here := positive tree (by simp)
      have later := ih (fun other member => positive other (by simp [member]))
        (tree :: before)
      refine ⟨rfl, ?_, ?_⟩
      · simp only [span, start, length, Crumb.offset]
        omega
      · simp only [Tree.totalLength] at later ⊢
        have stop : (Place.span ⟨tree, ⟨kind, before, after⟩ :: outer⟩).stop =
            tree.length + Tree.totalLength before + Crumb.offset outer := by
          simp only [span, start, length, Crumb.offset]
          omega
        rw [stop]
        refine cast ?_ later
        congr 1
        omega

theorem tile_children {place : Place} (isNode : place.isNode = true)
    (positive : ∀ child ∈ place.children, 0 < child.length) :
    Span.Tile place.start place.stop (place.children.map span) := by
  obtain ⟨focus, above⟩ := place
  cases focus with
  | token kind length => contradiction
  | node kind trees =>
      have treesPositive : ∀ tree ∈ trees, 0 < tree.length := by
        intro tree member
        have placed : tree ∈ (among kind above [] trees).map focus := by
          rw [map_focus_among]
          exact member
        obtain ⟨child, childIn, rfl⟩ := List.mem_map.mp placed
        exact positive child childIn
      have tiled := tile_among kind above treesPositive []
      simpa [children, Tree.totalLength, start, stop, length, Tree.length] using tiled

theorem tokens_eq (place : Place) :
    place.tokens =
      (if place.isToken then [place] else []) ++ place.children.flatMap tokens := by
  rw [tokens, preorder_eq_cons, List.filter_cons, List.filter_flatMap]
  split <;> rfl

theorem map_tokens_among {f : Place → Kind × Span} {trees : List Tree}
    (each : ∀ tree ∈ trees, ∀ above,
      (Place.tokens ⟨tree, above⟩).map f =
        Tree.spansFrom (Crumb.offset above) tree.leaves)
    (kind : Kind) (outer : List Crumb) (before : List Tree) :
    ((among kind outer before trees).flatMap tokens).map f =
      Tree.spansFrom (Tree.totalLength before + Crumb.offset outer)
        (Tree.allLeaves trees) := by
  induction trees generalizing before with
  | nil => rfl
  | cons tree after ih =>
      rw [among, List.flatMap_cons, List.map_append, each tree (by simp), Tree.allLeaves,
        Tree.spansFrom_append, ih (fun other member => each other (by simp [member])),
        Crumb.offset, Tree.leafLength_leaves, Tree.totalLength]
      congr 2
      omega

theorem map_tokens (place : Place) :
    place.tokens.map (fun token => (token.kind, token.span)) =
      Tree.spansFrom place.start place.focus.leaves := by
  obtain ⟨focus, above⟩ := place
  induction focus using Tree.induct generalizing above with
  | token kind length => rfl
  | node kind trees ih =>
      rw [tokens_eq]
      have below := map_tokens_among ih kind above []
      simpa [isToken, isNode, Tree.isToken, Tree.isNode, children, Tree.leaves,
        Tree.totalLength, start] using below

end Place
end Asm6502
