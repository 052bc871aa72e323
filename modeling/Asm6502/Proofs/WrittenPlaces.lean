import Asm6502.Proofs.TreePlaces
import Asm6502.Proofs.WrittenTrees
import Asm6502.View.Select
import Mathlib.Data.List.Forall2

/-!
# Written trees at places

The places below the root of a written tree each stand for a part of it.  What the
parts are made of can be read off the places and the bytes of the text.
-/

namespace Asm6502

open List (Forall₂)

namespace Written

def bytes (written : Written) : Bytes :=
  written.tokens.flatMap Token.text

theorem length_flatMap_text (tokens : List Token) :
    (tokens.flatMap Token.text).length = Token.totalLength tokens := by
  induction tokens with
  | nil => rfl
  | cons token rest ih => simp [Token.totalLength, Token.length, ih]

theorem length_bytes (written : Written) : written.bytes.length = written.tree.length := by
  rw [bytes, length_flatMap_text, length_tree]

end Written

namespace Place

open Written

theorem among_split (kind : Kind) (outer : List Crumb) (before first : List Tree)
    (tree : Tree) (second : List Tree) :
    ∃ earlier later,
      among kind outer before (first ++ tree :: second) =
        earlier ++ ⟨tree, ⟨kind, first.reverse ++ before, second⟩ :: outer⟩ :: later ∧
          earlier.length = first.length := by
  induction first generalizing before with
  | nil => exact ⟨[], _, rfl, rfl⟩
  | cons other rest ih =>
      obtain ⟨earlier, later, split, length⟩ := ih (other :: before)
      refine ⟨⟨other, ⟨kind, before, rest ++ tree :: second⟩ :: outer⟩ :: earlier, later,
        ?_, by simp [length]⟩
      rw [List.cons_append, among, split]
      simp

/-- The place of a part between others in a node. -/
def part (kind : Kind) (outer : List Crumb) (lead : List Written) (written : Written)
    (trail : List Written) : Place :=
  ⟨written.tree, ⟨kind, (lead.map tree).reverse, trail.map tree⟩ :: outer⟩

/-- A part of a written tree occurs at a place. -/
inductive Occurs (root : Written) : Place → Written → Prop
  | root : Occurs root ⟨root.tree, []⟩ root
  | child {place : Place} {kind : Kind} {lead trail : List Written} {written : Written} :
      Occurs root place (.node kind (lead ++ written :: trail)) →
        Occurs root (part kind place.above lead written trail) written

variable {root written : Written} {place : Place} {nodeKind : Kind}
  {parts lead trail : List Written}

theorem Occurs.focus (occurs : Occurs root place written) : place.focus = written.tree := by
  cases occurs <;> rfl

theorem Occurs.kind (occurs : Occurs root place written) : place.kind = written.kind := by
  rw [Place.kind, occurs.focus, kind_tree]

theorem Occurs.isNode (occurs : Occurs root place written) :
    place.isNode = !written.isToken := by
  rw [Place.isNode, occurs.focus, isNode_tree]

theorem Occurs.isToken (occurs : Occurs root place written) :
    place.isToken = written.isToken := by
  rw [Place.isToken, occurs.focus]
  cases written <;> rfl

theorem Occurs.isTrivia (occurs : Occurs root place written) :
    place.isTrivia = written.isTrivia := by
  rw [Place.isTrivia, occurs.kind]
  rfl

theorem Occurs.length (occurs : Occurs root place written) :
    place.length = written.bytes.length := by
  rw [Place.length, occurs.focus, length_bytes]

theorem forall₂_among (occurs : Occurs root place (.node nodeKind (lead ++ parts))) :
    Forall₂ (Occurs root) (among nodeKind place.above (lead.map tree).reverse (parts.map tree))
      parts := by
  induction parts generalizing lead with
  | nil => exact .nil
  | cons written rest ih =>
      have split : lead ++ written :: rest = (lead ++ [written]) ++ rest := by simp
      have behind := ih (split ▸ occurs)
      rw [List.map_append, List.reverse_append] at behind
      exact .cons (.child occurs) behind

theorem Occurs.children (occurs : Occurs root place (.node nodeKind parts)) :
    place.children = among nodeKind place.above [] (parts.map tree) := by
  have focus := occurs.focus
  rw [tree_node] at focus
  rw [Place.children, focus]

/-- Each child of a place stands for a child of what the place stands for. -/
theorem Occurs.forall₂_children (occurs : Occurs root place written) :
    Forall₂ (Occurs root) place.children written.children := by
  cases written with
  | leaf token =>
      have none : place.children = [] := by
        rw [Place.children, occurs.focus]
        rfl
      rw [none]
      exact .nil
  | node nodeKind parts =>
      have among : Forall₂ (Occurs root)
          (among nodeKind place.above (([] : List Written).map tree).reverse (parts.map tree))
          parts := forall₂_among occurs
      rwa [occurs.children]

theorem exists_split_of_forall₂ {places : List Place}
    (occur : Forall₂ (Occurs root) places (lead ++ written :: trail)) :
    ∃ before child behind, places = before ++ child :: behind ∧
      Forall₂ (Occurs root) before lead ∧ Occurs root child written ∧
        Forall₂ (Occurs root) behind trail := by
  induction lead generalizing places with
  | nil =>
      cases occur with
      | cons first rest => exact ⟨[], _, _, rfl, .nil, first, rest⟩
  | cons other lead ih =>
      cases occur with
      | cons first rest =>
          obtain ⟨before, child, behind, rfl, early, here, late⟩ := ih rest
          exact ⟨_ :: before, child, behind, rfl, .cons first early, here, late⟩

theorem exists_occurs_of_mem {places : List Place}
    (occur : Forall₂ (Occurs root) places parts) (member : place ∈ places) :
    ∃ written ∈ parts, Occurs root place written := by
  induction occur with
  | nil => contradiction
  | cons first _ ih =>
      rcases List.mem_cons.mp member with rfl | later
      · exact ⟨_, List.mem_cons_self, first⟩
      · obtain ⟨written, writtenIn, occurs⟩ := ih later
        exact ⟨written, List.mem_cons_of_mem _ writtenIn, occurs⟩

theorem exists_occurs_of_mem_preorder (member : place ∈ preorder ⟨root.tree, []⟩) :
    ∃ written, Occurs root place written := by
  refine forall_mem_preorder (motive := fun place => ∃ written, Occurs root place written)
    ?_ ⟨root, .root⟩ place member
  rintro place ⟨written, occurs⟩ child childIn
  obtain ⟨part, -, occursIn⟩ := exists_occurs_of_mem occurs.forall₂_children childIn
  exact ⟨part, occursIn⟩

theorem Occurs.children_split
    (occurs : Occurs root place (.node nodeKind (lead ++ written :: trail))) :
    ∃ before behind,
      place.children = before ++ part nodeKind place.above lead written trail :: behind ∧
        Forall₂ (Occurs root) before lead ∧ Forall₂ (Occurs root) behind trail := by
  obtain ⟨before, behind, split, length⟩ :=
    among_split nodeKind place.above [] (lead.map tree) written.tree (trail.map tree)
  rw [List.append_nil, ← List.map_cons, ← List.map_append, ← occurs.children] at split
  rw [List.length_map] at length
  have occur := occurs.forall₂_children
  rw [split] at occur
  have first := List.forall₂_take_append _ _ _ occur
  rw [List.take_left' length] at first
  have second := List.forall₂_drop_append _ _ _ occur
  rw [List.drop_left' length] at second
  cases second with
  | cons _ second => exact ⟨before, behind, split, first, second⟩

theorem totalLength_reverse (trees : List Tree) :
    Tree.totalLength trees.reverse = Tree.totalLength trees := by
  induction trees with
  | nil => rfl
  | cons tree rest ih =>
      rw [List.reverse_cons, Tree.totalLength_append, ih]
      simp only [Tree.totalLength]
      omega

theorem start_part (outer : List Crumb) :
    (part nodeKind outer lead written trail).start =
      Crumb.offset outer + Token.totalLength (allTokens lead) := by
  rw [part, start, Crumb.offset, totalLength_reverse, totalLength_map_tree, Nat.add_comm]

theorem Occurs.exists_tokens (occurs : Occurs root place written) :
    ∃ before behind, root.tokens = before ++ (written.tokens ++ behind) ∧
      Token.totalLength before = place.start := by
  -- On the way down each node adds what stands in it before the child.
  induction occurs with
  | root => exact ⟨[], [], by simp, rfl⟩
  | @child place nodeKind lead trail written _ ih =>
      obtain ⟨before, behind, split, length⟩ := ih
      refine ⟨before ++ allTokens lead, allTokens trail ++ behind, ?_, ?_⟩
      · rw [split, tokens_node, allTokens_append, allTokens]
        simp only [List.append_assoc]
      · rw [start_part, Token.totalLength_append, length]
        rfl

theorem Occurs.drop_start (occurs : Occurs root place written) :
    ∃ behind, root.bytes.drop place.start = written.bytes ++ behind := by
  obtain ⟨before, behind, split, length⟩ := occurs.exists_tokens
  refine ⟨behind.flatMap Token.text, ?_⟩
  rw [← length, ← length_flatMap_text, Written.bytes, split, List.flatMap_append,
    List.drop_left, List.flatMap_append, Written.bytes]

theorem Occurs.bytes (occurs : Occurs root place written) :
    place.bytes root.bytes = written.bytes := by
  obtain ⟨behind, split⟩ := occurs.drop_start
  rw [Place.bytes, Bytes.slice, stop, Nat.add_sub_cancel_left, split, occurs.length,
    List.take_left]

end Place
end Asm6502
