import Asm6502.Proofs.TreePlaces
import Mathlib.Data.List.Forall2

/-!
# Trees without the lengths of their tokens

Two texts that differ in how long their tokens are can have trees of one shape.  The
shape of a tree is the tree with every length forgotten.  Building a tree never looks
at a length, so forgetting the lengths commutes with it; and a tree is determined by
its shape and its leaves.
-/

namespace Asm6502

open List (Forall₂)

namespace Tree

mutual

/-- The tree with the lengths of its tokens forgotten. -/
def bare : Tree → Tree
  | .token kind _ => .token kind 0
  | .node kind children => .node kind (allBare children)

def allBare : List Tree → List Tree
  | [] => []
  | tree :: rest => tree.bare :: allBare rest

end

theorem allBare_eq_map (trees : List Tree) : allBare trees = trees.map bare := by
  induction trees with
  | nil => rfl
  | cons tree rest ih => rw [allBare, ih, List.map_cons]

@[simp]
theorem bare_token (kind : Kind) (length : Nat) :
    (Tree.token kind length).bare = .token kind 0 :=
  rfl

@[simp]
theorem bare_node (kind : Kind) (children : List Tree) :
    (Tree.node kind children).bare = .node kind (children.map bare) := by
  rw [bare, allBare_eq_map]

@[simp]
theorem kind_bare (tree : Tree) : tree.bare.kind = tree.kind := by
  cases tree <;> rfl

@[simp]
theorem isNode_bare (tree : Tree) : tree.bare.isNode = tree.isNode := by
  cases tree <;> rfl

theorem length_leaves_bare (tree : Tree) :
    tree.bare.leaves.length = tree.leaves.length := by
  induction tree using Tree.induct with
  | token => rfl
  | node kind children ih =>
      rw [bare_node, leaves, leaves, allLeaves_eq_flatMap, allLeaves_eq_flatMap,
        List.flatMap_map, List.length_flatMap, List.length_flatMap]
      exact congrArg List.sum (List.map_congr_left ih)

theorem eq_of_bare_of_leaves {tree other : Tree} (shape : tree.bare = other.bare)
    (leaves : tree.leaves = other.leaves) : tree = other := by
  induction tree using Tree.induct generalizing other with
  | token kind length =>
      cases other with
      | token => simpa [Tree.leaves] using leaves
      | node => simp at shape
  | node kind children ih =>
      cases other with
      | token => simp at shape
      | node kind' others =>
          simp only [bare_node, node.injEq] at shape
          obtain ⟨rfl, shapes⟩ := shape
          rw [Tree.leaves, Tree.leaves] at leaves
          refine congrArg _ ?_
          -- Equal shapes have equally many leaves, so the leaves split child by child.
          induction children generalizing others with
          | nil => simpa using shapes.symm
          | cons child rest restIH =>
              obtain ⟨other, others, rfl⟩ := List.exists_cons_of_ne_nil
                (l := others) (by rintro rfl; simp at shapes)
              obtain ⟨shape, shapes⟩ := List.cons.inj shapes
              rw [allLeaves, allLeaves] at leaves
              have lengths : child.leaves.length = other.leaves.length := by
                rw [← length_leaves_bare, shape, length_leaves_bare]
              obtain ⟨first, later⟩ := List.append_inj leaves lengths
              rw [ih child (by simp) shape first,
                restIH (fun other member _ => ih other (by simp [member])) _ shapes later]

end Tree

namespace Sketch

variable {τ σ : Type} (f : τ → σ)

/-- A sketch of trees without lengths, with what matters of its tags. -/
def bare (sketch : Sketch τ) : Sketch σ where
  settled := sketch.settled.map Tree.bare
  opened := sketch.opened.map fun entry => (f entry.1, entry.2.map Tree.bare)

theorem tag?_bare (sketch : Sketch τ) : (sketch.bare f).tag? = sketch.tag?.map f :=
  sketch.tag?_map f Tree.bare

theorem bare_add (sketch : Sketch τ) (tree : Tree) :
    (sketch.add tree).bare f = (sketch.bare f).add tree.bare :=
  sketch.map_add f Tree.bare tree

theorem bare_addAll (sketch : Sketch τ) (trees : List Tree) :
    (sketch.addAll trees).bare f = (sketch.bare f).addAll (trees.map Tree.bare) :=
  sketch.map_addAll f Tree.bare trees

theorem bare_wrap (sketch : Sketch τ) (tag : τ) :
    (sketch.wrap tag).bare f = (sketch.bare f).wrap (f tag) :=
  sketch.map_wrap f Tree.bare tag

theorem bare_leave (sketch : Sketch τ) (kind : Kind) :
    (sketch.leave kind).bare f = (sketch.bare f).leave kind :=
  map_leave f Tree.bare_node sketch kind

theorem trees_bare (sketch : Sketch τ) : (sketch.bare f).trees = sketch.trees.map Tree.bare :=
  sketch.trees_map f Tree.bare

end Sketch

namespace Place

/-- Places of the same shape at the same depth. -/
structure Resembles (place other : Place) : Prop where
  bare : place.focus.bare = other.focus.bare
  depth : place.depth = other.depth

variable {place other : Place}

theorem Resembles.kind (resembles : Resembles place other) : place.kind = other.kind := by
  rw [Place.kind, Place.kind, ← Tree.kind_bare, resembles.bare, Tree.kind_bare]

theorem Resembles.isToken (resembles : Resembles place other) :
    place.isToken = other.isToken := by
  rw [Place.isToken, Place.isToken, Tree.isToken, Tree.isToken, ← Tree.isNode_bare,
    resembles.bare, Tree.isNode_bare]

theorem resembles_among {kind : Kind} {outer outer' : List Crumb}
    (depth : outer.length = outer'.length) {trees others : List Tree}
    (shapes : trees.map Tree.bare = others.map Tree.bare) (before before' : List Tree) :
    Forall₂ Resembles (among kind outer before trees) (among kind outer' before' others) := by
  induction trees generalizing others before before' with
  | nil =>
      obtain rfl : others = [] := by simpa using shapes.symm
      exact .nil
  | cons tree rest ih =>
      obtain ⟨other, others, rfl⟩ := List.exists_cons_of_ne_nil
        (l := others) (by rintro rfl; simp at shapes)
      obtain ⟨shape, shapes⟩ := List.cons.inj shapes
      refine .cons ⟨shape, ?_⟩ (ih shapes _ _)
      simp [Place.depth, depth]

theorem Resembles.children (resembles : Resembles place other) :
    Forall₂ Resembles place.children other.children := by
  obtain ⟨focus, above⟩ := place
  obtain ⟨focus', above'⟩ := other
  obtain ⟨shape, depth⟩ := resembles
  cases focus with
  | token =>
      cases focus' with
      | token => exact .nil
      | node => simp at shape
  | node kind trees =>
      cases focus' with
      | token => simp at shape
      | node kind' others =>
          simp only [Tree.bare_node, Tree.node.injEq] at shape
          obtain ⟨rfl, shapes⟩ := shape
          exact resembles_among depth shapes [] []

/-- Walks over trees of one shape visit places of one shape at one depth. -/
theorem Resembles.preorder (resembles : Resembles place other) :
    Forall₂ Resembles place.preorder other.preorder := by
  obtain ⟨focus, above⟩ := place
  induction focus using Tree.induct generalizing above other with
  | token kind length =>
      have below := resembles.children
      rw [preorder_eq_cons, preorder_eq_cons]
      refine .cons resembles ?_
      have none : other.children = [] := List.forall₂_nil_left_iff.mp below
      rw [none]
      exact .nil
  | node kind trees ih =>
      have below := (List.forall₂_and_left _ _).mpr ⟨fun child member => member, resembles.children⟩
      rw [preorder_eq_cons, preorder_eq_cons]
      refine .cons resembles (List.rel_flatMap below ?_)
      rintro child child' ⟨member, childResembles⟩
      obtain ⟨earlier, tree, after, rfl, rfl⟩ := mem_among member
      exact ih tree (by simp) _ childResembles

end Place
end Asm6502
