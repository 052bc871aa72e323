import Asm6502.Proofs.SketchForest
import Asm6502.Proofs.WrittenPlaces
import Asm6502.Tree.Place
import Mathlib.Data.List.Induction

/-!
# Trees with a hole

A frame is a tree in which one element is left out; another tree can be put there.  The
surroundings of that place can be read off the frame.  As every element of a tree covers
its own bytes, the surroundings of a token are determined by where it stands.
-/

namespace Asm6502

namespace Crumb

/-- The whole tree around an element in the given surroundings, innermost first. -/
def plug (above : List Crumb) (focus : Tree) : Tree :=
  above.foldl (fun focus crumb => crumb.fill focus) focus

theorem plug_cons (crumb : Crumb) (above : List Crumb) (focus : Tree) :
    plug (crumb :: above) focus = plug above (crumb.fill focus) :=
  rfl

theorem plug_concat (above : List Crumb) (crumb : Crumb) (focus : Tree) :
    plug (above ++ [crumb]) focus = crumb.fill (plug above focus) := by
  rw [plug, List.foldl_append]
  rfl

theorem offset_append (above outer : List Crumb) :
    offset (above ++ outer) = offset above + offset outer := by
  induction above with
  | nil => simp [offset]
  | cons crumb above ih => rw [List.cons_append, offset, offset, ih, Nat.add_assoc]

theorem offset_singleton (crumb : Crumb) : offset [crumb] = Tree.totalLength crumb.before :=
  rfl

theorem offset_concat (above : List Crumb) (crumb : Crumb) :
    offset (above ++ [crumb]) = Tree.totalLength crumb.before + offset above := by
  rw [offset_append, offset_singleton, Nat.add_comm]

theorem offset_add_length_le (above : List Crumb) (focus : Tree) :
    offset above + focus.length ≤ (plug above focus).length := by
  induction above generalizing focus with
  | nil => simp [offset, plug]
  | cons crumb above ih =>
      have outer := ih (crumb.fill focus)
      have inner : (crumb.fill focus).length =
          Tree.totalLength crumb.before + (focus.length + Tree.totalLength crumb.after) := by
        rw [fill, Tree.length, Tree.totalLength_append, Place.totalLength_reverse,
          Tree.totalLength]
      rw [plug_cons, offset]
      omega

end Crumb

namespace Tree

theorem split_unique {before before' after after' : List Tree} {tree tree' : Tree}
    {position : Nat} (same : before ++ tree :: after = before' ++ tree' :: after')
    (here : totalLength before ≤ position ∧ position < totalLength before + tree.length)
    (there : totalLength before' ≤ position ∧ position < totalLength before' + tree'.length) :
    before = before' ∧ tree = tree' ∧ after = after' := by
  rcases List.append_eq_append_iff.mp same with ⟨between, split, rest⟩ | ⟨between, split, rest⟩
  · cases between with
    | nil => simp_all
    | cons first between =>
        obtain ⟨rfl, -⟩ := List.cons.inj rest
        rw [split, totalLength_append, totalLength] at there
        omega
  · cases between with
    | nil => simp_all
    | cons first between =>
        obtain ⟨rfl, -⟩ := List.cons.inj rest
        rw [split, totalLength_append, totalLength] at here
        omega

theorem exists_split_of_lt {trees : List Tree} {position : Nat}
    (inside : position < totalLength trees) :
    ∃ before tree after, trees = before ++ tree :: after ∧ totalLength before ≤ position ∧
      position < totalLength before + tree.length := by
  induction trees generalizing position with
  | nil => contradiction
  | cons tree rest ih =>
      rw [totalLength] at inside
      rcases Nat.lt_or_ge position tree.length with here | further
      · exact ⟨[], tree, rest, rfl, Nat.zero_le _, by simpa [totalLength] using here⟩
      · obtain ⟨before, found, after, rfl, start, stop⟩ :=
          @ih (position - tree.length) (by omega)
        refine ⟨tree :: before, found, after, rfl, ?_, ?_⟩
        · rw [totalLength]
          omega
        · rw [totalLength]
          omega

end Tree

namespace Crumb

theorem plug_token_unique {above above' : List Crumb} {kind kind' : Kind}
    {length length' position : Nat}
    (same : plug above (.token kind length) = plug above' (.token kind' length'))
    (here : offset above ≤ position ∧ position < offset above + length)
    (there : offset above' ≤ position ∧ position < offset above' + length') : above = above' := by
  induction above using List.reverseRecOn generalizing above' position with
  | nil =>
      rcases List.eq_nil_or_concat above' with rfl | ⟨outer, crumb, rfl⟩
      · rfl
      · rw [List.concat_eq_append, plug_concat] at same
        contradiction
  | append_singleton above crumb ih =>
      rcases List.eq_nil_or_concat above' with rfl | ⟨above', crumb', rfl⟩
      · rw [plug_concat] at same
        contradiction
      · rw [List.concat_eq_append] at same there ⊢
        rw [plug_concat, plug_concat] at same
        rw [offset_concat] at here there
        have inner := offset_add_length_le above (.token kind length)
        have inner' := offset_add_length_le above' (.token kind' length')
        simp only [Tree.length] at inner inner'
        obtain ⟨sameKind, children⟩ := Tree.node.inj same
        obtain ⟨before, focus, after⟩ := @Tree.split_unique _ _ _ _ _ _ position children
          (by rw [Place.totalLength_reverse]; omega) (by rw [Place.totalLength_reverse]; omega)
        have sameCrumb : crumb = crumb' := by
          cases crumb
          cases crumb'
          simp_all
        subst sameCrumb
        rw [@ih above' (position - Tree.totalLength crumb.before) focus (by omega) (by omega)]

end Crumb

theorem Place.plug_of_mem_preorder {top : Tree} {place : Place}
    (member : place ∈ preorder ⟨top, []⟩) : Crumb.plug place.above place.focus = top := by
  refine forall_mem_preorder (motive := fun place => Crumb.plug place.above place.focus = top)
    ?_ rfl place member
  rintro ⟨focus, above⟩ whole child childIn
  cases focus with
  | token => contradiction
  | node kind trees =>
      obtain ⟨earlier, tree, after, rfl, rfl⟩ := mem_among childIn
      rw [← whole, Crumb.plug_cons, Crumb.fill]
      simp

namespace Tree

/-- What stands in the place of an element that is left out. -/
def hole : Tree := .token .eof 0

mutual

/-- The tree with a part in the place of each hole. -/
def fillWith (part : Tree) : Tree → Tree
  | .token kind length => if kind = .eof ∧ length = 0 then part else .token kind length
  | .node kind children => .node kind (fillAllWith part children)

def fillAllWith (part : Tree) : List Tree → List Tree
  | [] => []
  | tree :: rest => fillWith part tree :: fillAllWith part rest

end

theorem fillAllWith_eq_map (part : Tree) (trees : List Tree) :
    fillAllWith part trees = trees.map (fillWith part) := by
  induction trees with
  | nil => rfl
  | cons tree rest ih => rw [fillAllWith, ih, List.map_cons]

@[simp]
theorem fillWith_node (part : Tree) (kind : Kind) (children : List Tree) :
    fillWith part (.node kind children) = .node kind (children.map (fillWith part)) := by
  rw [fillWith, fillAllWith_eq_map]

/-- No hole is among some leaves. -/
def Whole (leaves : List (Kind × Nat)) : Prop :=
  ∀ leaf ∈ leaves, leaf.1 ≠ .eof

theorem whole_map_pair {tokens : List Token} (whole : ∀ token ∈ tokens, token.kind ≠ .eof) :
    Whole (tokens.map Token.pair) := by
  intro leaf member
  obtain ⟨token, tokenIn, rfl⟩ := List.mem_map.mp member
  exact whole token tokenIn

theorem fillWith_of_whole (part : Tree) {tree : Tree} (whole : Whole tree.leaves) :
    fillWith part tree = tree := by
  induction tree using Tree.induct with
  | token kind length =>
      have notHole : kind ≠ .eof := whole (kind, length) List.mem_cons_self
      rw [fillWith, if_neg fun isHole => notHole isHole.1]
  | node kind children ih =>
      rw [fillWith_node]
      congr 1
      conv_rhs => rw [← List.map_id children]
      refine List.map_congr_left fun child member => ih child member fun leaf leafIn => ?_
      refine whole leaf ?_
      rw [leaves, allLeaves_eq_flatMap]
      exact List.mem_flatMap_of_mem member leafIn

theorem map_fillWith_of_whole (part : Tree) {trees : List Tree}
    (whole : Whole (allLeaves trees)) : trees.map (fillWith part) = trees := by
  have same := @fillWith_of_whole part (.node .line trees) whole
  rw [fillWith_node] at same
  exact (Tree.node.inj same).2

theorem exists_split_of_allLeaves {trees : List Tree} {front back : List (Kind × Nat)}
    {leaf : Kind × Nat} (leaves : allLeaves trees = front ++ leaf :: back) :
    ∃ before tree after front' back', trees = before ++ tree :: after ∧
      tree.leaves = front' ++ leaf :: back' ∧ front = allLeaves before ++ front' ∧
        back = back' ++ allLeaves after := by
  induction trees generalizing front with
  | nil => simp [allLeaves] at leaves
  | cons tree rest ih =>
      rw [allLeaves] at leaves
      rcases List.append_eq_append_iff.mp leaves with ⟨between, rfl, split⟩ | ⟨between, here, split⟩
      · obtain ⟨before, found, after, front', back', rfl, inside, rfl, rfl⟩ := ih split
        exact ⟨tree :: before, found, after, front', back', rfl, inside,
          by rw [allLeaves, List.append_assoc], rfl⟩
      · cases between with
        | nil =>
            rw [List.append_nil] at here
            obtain ⟨before, found, after, front', back', rfl, inside, none, rfl⟩ :=
              @ih [] split.symm
            refine ⟨tree :: before, found, after, front', back', rfl, inside, ?_, rfl⟩
            rw [allLeaves, List.append_assoc, ← none, List.append_nil, here]
        | cons first between =>
            obtain ⟨rfl, rfl⟩ := List.cons.inj split
            exact ⟨[], tree, rest, front, between, rfl, here, rfl, rfl⟩

/-- A tree with one hole is a frame: whatever is put there stands in the same
surroundings. -/
theorem exists_plug_of_leaves {tree : Tree} {front back : List (Kind × Nat)}
    (leaves : tree.leaves = front ++ (.eof, 0) :: back) (wholeFront : Whole front)
    (wholeBack : Whole back) :
    ∃ above, Crumb.offset above = leafLength front ∧
      ∀ part, fillWith part tree = Crumb.plug above part := by
  induction tree using Tree.induct generalizing front back with
  | token kind length =>
      have single : [(kind, length)] = front ++ (.eof, 0) :: back := leaves
      cases front with
      | nil =>
          obtain ⟨isHole, -⟩ := List.cons.inj single
          obtain ⟨rfl, rfl⟩ := Prod.mk.inj isHole
          exact ⟨[], rfl, fun part => rfl⟩
      | cons first front => simp at single
  | node kind children ih =>
      rw [Tree.leaves] at leaves
      obtain ⟨before, child, after, front', back', rfl, inside, rfl, rfl⟩ :=
        exists_split_of_allLeaves leaves
      obtain ⟨above, offset, filled⟩ := ih child (by simp) inside
        (fun leaf member => wholeFront leaf (List.mem_append_right _ member))
        (fun leaf member => wholeBack leaf (List.mem_append_left _ member))
      refine ⟨above ++ [⟨kind, before.reverse, after⟩], ?_, fun part => ?_⟩
      · rw [Crumb.offset_concat, Place.totalLength_reverse, leafLength_append,
          leafLength_allLeaves, offset]
      · rw [Crumb.plug_concat, Crumb.fill, List.reverse_reverse, fillWith_node, List.map_append,
          List.map_cons, filled,
          map_fillWith_of_whole part fun leaf member =>
            wholeFront leaf (List.mem_append_left _ member),
          map_fillWith_of_whole part fun leaf member =>
            wholeBack leaf (List.mem_append_right _ member)]

end Tree
end Asm6502
