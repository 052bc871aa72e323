import Asm6502.Tree.Sketch

/-!
# The forest behind a sketch

Dissolving the open nodes of a sketch leaves the trees it holds, in text order.
Opening a node and wrapping one around the last tree do not change this forest,
and closing a node only groups its last trees.
-/

namespace Asm6502

namespace Tree

@[elab_as_elim]
theorem induct {motive : Tree → Prop}
    (token : ∀ kind length, motive (.token kind length))
    (node : ∀ kind children,
      (∀ child ∈ children, motive child) → motive (.node kind children)) :
    ∀ tree, motive tree
  | .token kind length => token kind length
  | .node kind children =>
      node kind children fun child _ => induct token node child

@[simp]
theorem totalLength_append (first second : List Tree) :
    totalLength (first ++ second) = totalLength first + totalLength second := by
  induction first with
  | nil => simp [totalLength]
  | cons tree rest ih => simp [totalLength, ih, Nat.add_assoc]

theorem allLeaves_eq_flatMap (trees : List Tree) :
    allLeaves trees = trees.flatMap leaves := by
  induction trees with
  | nil => rfl
  | cons tree rest ih => simp [allLeaves, ih]

@[simp]
theorem allLeaves_append (first second : List Tree) :
    allLeaves (first ++ second) = allLeaves first ++ allLeaves second := by
  simp [allLeaves_eq_flatMap]

/-- The number of bytes that a list of leaves covers. -/
def leafLength : List (Kind × Nat) → Nat
  | [] => 0
  | leaf :: rest => leaf.2 + leafLength rest

@[simp]
theorem leafLength_append (first second : List (Kind × Nat)) :
    leafLength (first ++ second) = leafLength first + leafLength second := by
  induction first with
  | nil => simp [leafLength]
  | cons leaf rest ih => simp [leafLength, ih, Nat.add_assoc]

theorem leafLength_leaves (tree : Tree) : leafLength tree.leaves = tree.length := by
  induction tree using Tree.induct with
  | token kind length => simp [leaves, leafLength, Tree.length]
  | node kind children ih =>
      rw [leaves, Tree.length]
      induction children with
      | nil => rfl
      | cons child rest restIH =>
          rw [allLeaves, totalLength, leafLength_append, ih child (by simp),
            restIH fun other member => ih other (by simp [member])]

theorem leafLength_allLeaves (trees : List Tree) :
    leafLength (allLeaves trees) = totalLength trees := by
  induction trees with
  | nil => rfl
  | cons tree rest ih =>
      rw [allLeaves, totalLength, leafLength_append, leafLength_leaves, ih]

end Tree

namespace Sketch

variable {τ : Type}

/-- The tags of the open nodes, innermost first. -/
def tags (sketch : Sketch τ) : List τ :=
  sketch.opened.map Prod.fst

/-- The trees of a sketch in text order, its open nodes dissolved. -/
def forest (sketch : Sketch τ) : List Tree :=
  sketch.settled.reverse ++
    sketch.opened.reverse.flatMap fun entry => entry.2.reverse

theorem tag?_eq_head? (sketch : Sketch τ) : sketch.tag? = sketch.tags.head? := by
  simp [tag?, tags, List.head?_map]

@[simp]
theorem tags_add (sketch : Sketch τ) (tree : Tree) :
    (sketch.add tree).tags = sketch.tags := by
  unfold add tags
  split <;> simp_all

@[simp]
theorem tags_addAll (sketch : Sketch τ) (trees : List Tree) :
    (sketch.addAll trees).tags = sketch.tags := by
  unfold addAll
  induction trees generalizing sketch with
  | nil => rfl
  | cons tree rest ih => simp [ih]

@[simp]
theorem tags_enter (sketch : Sketch τ) (tag : τ) :
    (sketch.enter tag).tags = tag :: sketch.tags :=
  rfl

@[simp]
theorem tags_wrap (sketch : Sketch τ) (tag : τ) :
    (sketch.wrap tag).tags = tag :: sketch.tags := by
  unfold wrap tags
  split <;> simp_all

@[simp]
theorem tags_leave (sketch : Sketch τ) (kind : Kind) :
    (sketch.leave kind).tags = sketch.tags.tail := by
  unfold leave
  split
  · next empty => simp [tags, empty]
  · next opened => simp [tags, opened]
  · next opened =>
      rw [tags_add]
      simp [tags, opened]

@[simp]
theorem forest_add (sketch : Sketch τ) (tree : Tree) :
    (sketch.add tree).forest = sketch.forest ++ [tree] := by
  unfold add forest
  split <;> simp_all

@[simp]
theorem forest_addAll (sketch : Sketch τ) (trees : List Tree) :
    (sketch.addAll trees).forest = sketch.forest ++ trees := by
  unfold addAll
  induction trees generalizing sketch with
  | nil => simp
  | cons tree rest ih => simp [ih]

@[simp]
theorem forest_enter (sketch : Sketch τ) (tag : τ) :
    (sketch.enter tag).forest = sketch.forest := by
  simp [enter, forest]

@[simp]
theorem forest_wrap (sketch : Sketch τ) (tag : τ) :
    (sketch.wrap tag).forest = sketch.forest := by
  have regroup (trees : List Tree) :
      trees.tail.reverse ++ (trees.take 1).reverse = trees.reverse := by
    rw [← List.drop_one, ← List.reverse_append, List.take_append_drop]
  unfold wrap forest
  split
  · next empty => simpa [empty] using regroup sketch.settled
  · next outerTag children outer opened =>
      simp [opened, regroup children]

/-- Closing a node groups the last trees of the forest, if there are any in
the node. -/
theorem forest_leave (sketch : Sketch τ) (kind : Kind) :
    (sketch.leave kind).forest = sketch.forest ∨
      ∃ before children, children ≠ [] ∧
        sketch.forest = before ++ children ∧
        (sketch.leave kind).forest = before ++ [.node kind children] := by
  unfold leave
  split
  · exact .inl rfl
  · next tag outer opened => exact .inl (by simp [forest, opened])
  · next tag children outer notEmpty opened =>
      right
      refine ⟨({ sketch with opened := outer } : Sketch τ).forest,
        children.reverse, ?_, ?_, forest_add _ _⟩
      · simpa using notEmpty
      · simp [forest, opened]

@[simp]
theorem allLeaves_forest_leave (sketch : Sketch τ) (kind : Kind) :
    Tree.allLeaves (sketch.leave kind).forest = Tree.allLeaves sketch.forest := by
  rcases forest_leave sketch kind with same | ⟨before, children, -, split, left⟩
  · rw [same]
  · rw [split, left]
    simp [Tree.allLeaves, Tree.leaves]

theorem forest_of_opened_nil {sketch : Sketch τ} (closed : sketch.opened = []) :
    sketch.forest = sketch.trees := by
  simp [forest, trees, closed]

theorem addAll_append (sketch : Sketch τ) (first second : List Tree) :
    sketch.addAll (first ++ second) = (sketch.addAll first).addAll second :=
  List.foldl_append

theorem addAll_of_opened {sketch : Sketch τ} {tag : τ} {children : List Tree}
    {outer : List (τ × List Tree)} (opened : sketch.opened = (tag, children) :: outer)
    (trees : List Tree) :
    sketch.addAll trees =
      { sketch with opened := (tag, trees.reverse ++ children) :: outer } := by
  induction trees generalizing sketch children with
  | nil => simp [addAll, ← opened]
  | cons tree rest ih =>
      have added : sketch.add tree =
          { sketch with opened := (tag, tree :: children) :: outer } := by
        rw [add, opened]
      have first : sketch.addAll (tree :: rest) = (sketch.add tree).addAll rest := rfl
      rw [first, added, ih rfl]
      simp

theorem leave_addAll_enter (sketch : Sketch τ) (tag : τ) {trees : List Tree}
    (nonempty : trees ≠ []) (kind : Kind) :
    ((sketch.enter tag).addAll trees).leave kind = sketch.add (.node kind trees) := by
  obtain ⟨tree, rest, split⟩ := List.exists_cons_of_ne_nil
    (List.reverse_ne_nil_iff.mpr nonempty)
  have whole : trees = (tree :: rest).reverse := by rw [← split, List.reverse_reverse]
  rw [addAll_of_opened rfl, split]
  simp [leave, enter, whole]

/-- Wrapping the last tree is the same as having opened the node before it. -/
theorem wrap_add (sketch : Sketch τ) (tree : Tree) (tag : τ) :
    (sketch.add tree).wrap tag = (sketch.enter tag).add tree := by
  obtain ⟨settled, opened⟩ := sketch
  cases opened <;> rfl

section Map

variable {σ : Type} (f : τ → σ) (g : Tree → Tree)

/-- A sketch with other tags and other trees. -/
def map (sketch : Sketch τ) : Sketch σ where
  settled := sketch.settled.map g
  opened := sketch.opened.map fun entry => (f entry.1, entry.2.map g)

theorem tags_map (sketch : Sketch τ) : (sketch.map f g).tags = sketch.tags.map f := by
  simp [tags, map, Function.comp_def]

theorem tag?_map (sketch : Sketch τ) : (sketch.map f g).tag? = sketch.tag?.map f := by
  rw [tag?_eq_head?, tag?_eq_head?, tags_map, List.head?_map]

theorem forest_map (sketch : Sketch τ) : (sketch.map f g).forest = sketch.forest.map g := by
  simp [forest, map, List.map_flatMap, ← List.map_reverse, List.flatMap_map]

theorem trees_map (sketch : Sketch τ) : (sketch.map f g).trees = sketch.trees.map g := by
  rw [trees, trees, List.map_reverse]
  rfl

theorem map_add (sketch : Sketch τ) (tree : Tree) :
    (sketch.add tree).map f g = (sketch.map f g).add (g tree) := by
  obtain ⟨settled, opened⟩ := sketch
  cases opened <;> rfl

theorem map_addAll (sketch : Sketch τ) (trees : List Tree) :
    (sketch.addAll trees).map f g = (sketch.map f g).addAll (trees.map g) := by
  unfold addAll
  induction trees generalizing sketch with
  | nil => rfl
  | cons tree rest ih => rw [List.foldl_cons, ih, map_add, List.map_cons, List.foldl_cons]

theorem map_wrap (sketch : Sketch τ) (tag : τ) :
    (sketch.wrap tag).map f g = (sketch.map f g).wrap (f tag) := by
  obtain ⟨settled, opened⟩ := sketch
  cases opened <;> simp [wrap, map, List.map_take]

theorem map_leave {g : Tree → Tree}
    (nodes : ∀ kind children, g (.node kind children) = .node kind (children.map g))
    (sketch : Sketch τ) (kind : Kind) :
    (sketch.leave kind).map f g = (sketch.map f g).leave kind := by
  obtain ⟨settled, opened⟩ := sketch
  cases opened with
  | nil => rfl
  | cons entry outer =>
      obtain ⟨tag, children⟩ := entry
      cases children with
      | nil => rfl
      | cons child rest =>
          simp only [leave, map_add, nodes, List.map_reverse]
          rfl

end Map

end Sketch
end Asm6502
