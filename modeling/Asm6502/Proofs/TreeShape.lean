import Asm6502.Proofs.SketchForest
import Asm6502.Proofs.TokenLines

/-!
# Shapes of trees

The tree of a text has three levels.  Inside a line stand nodes and tokens that
never end a line; a line holds such trees and possibly its end; a block holds
lines and blocks.  No node of any level is empty.
-/

namespace Asm6502

/-- A node of this kind stands inside a line. -/
def Kind.IsInline (kind : Kind) : Prop :=
  kind.isNode = true ∧ kind.absorbsTrivia = false

instance (kind : Kind) : Decidable kind.IsInline :=
  inferInstanceAs (Decidable (_ ∧ _))

namespace Tree

/-- A tree inside a line, without the line's end. -/
inductive IsInline : Tree → Prop
  | token {kind : Kind} {length : Nat} :
      Scan.IsInner kind → 0 < length → IsInline (.token kind length)
  | node {kind : Kind} {children : List Tree} :
      kind.IsInline → children ≠ [] →
        (∀ child ∈ children, IsInline child) → IsInline (.node kind children)

/-- The end of a line, as the trees that stand for it: a token, or nothing at
the end of the text. -/
inductive IsLineEnd : List Tree → Prop
  | missing : IsLineEnd []
  | token {length : Nat} : 0 < length → IsLineEnd [.token .eol length]

/-- A line: trees inside the line and then its end. -/
inductive IsLine : Tree → Prop
  | intro {body ends : List Tree} :
      (∀ tree ∈ body, IsInline tree) → IsLineEnd ends → body ++ ends ≠ [] →
        IsLine (.node .line (body ++ ends))

/-- What can stand at the top of a text: a line, or a block of such trees. -/
inductive IsPassage : Tree → Prop
  | line {tree : Tree} : IsLine tree → IsPassage tree
  | block {kind : Kind} {children : List Tree} :
      kind.isBlock = true → children ≠ [] →
        (∀ child ∈ children, IsPassage child) →
          IsPassage (.node kind children)

theorem leafLength_map_pair (tokens : List Token) :
    leafLength (tokens.map Token.pair) = Token.totalLength tokens := by
  induction tokens with
  | nil => rfl
  | cons token rest ih =>
      rw [List.map_cons, leafLength, ih]
      rfl

theorem length_pos_of_children {kind : Kind} {children : List Tree}
    (nonempty : children ≠ []) (positive : ∀ child ∈ children, 0 < child.length) :
    0 < (Tree.node kind children).length := by
  obtain ⟨first, others, rfl⟩ := List.exists_cons_of_ne_nil nonempty
  have firstPositive := positive first (by simp)
  simp only [length, totalLength]
  omega

theorem IsInline.length_pos {tree : Tree} (shape : IsInline tree) :
    0 < tree.length := by
  induction shape with
  | token _ positive => exact positive
  | node _ nonempty _ ih => exact length_pos_of_children nonempty ih

theorem IsLine.length_pos {tree : Tree} (shape : IsLine tree) :
    0 < tree.length := by
  obtain ⟨inside, ending, nonempty⟩ := shape
  apply length_pos_of_children nonempty
  intro child childIn
  rcases List.mem_append.mp childIn with inBody | inEnds
  · exact (inside child inBody).length_pos
  · cases ending with
    | missing => simp at inEnds
    | token positive =>
        obtain rfl : child = _ := by simpa using inEnds
        exact positive

/-- Nothing at the top of a text is empty. -/
theorem IsPassage.length_pos {tree : Tree} (shape : IsPassage tree) :
    0 < tree.length := by
  induction shape with
  | line shape => exact shape.length_pos
  | block _ nonempty _ ih => exact length_pos_of_children nonempty ih

theorem IsPassage.isNode {tree : Tree} (shape : IsPassage tree) :
    tree.isNode = true := by
  cases shape with
  | line shape => cases shape; rfl
  | block => rfl

theorem IsInline.kind_ne {tree : Tree} (shape : IsInline tree) :
    tree.kind ≠ .eol ∧ tree.kind ≠ .line := by
  cases shape with
  | token inner =>
      refine ⟨inner.2, ?_⟩
      rintro rfl
      exact absurd inner (by decide)
  | node isInline =>
      constructor
      · rintro rfl
        exact absurd isInline (by decide)
      · rintro rfl
        exact absurd isInline (by decide)

theorem IsInline.leaf_kind_ne {tree : Tree} (shape : IsInline tree)
    {leaf : Kind × Nat} (member : leaf ∈ tree.leaves) : leaf.1 ≠ .eol := by
  induction shape with
  | token inner =>
      obtain rfl : leaf = _ := by simpa [leaves] using member
      exact inner.2
  | node _ _ _ ih =>
      rw [leaves, allLeaves_eq_flatMap] at member
      obtain ⟨child, childIn, member⟩ := List.mem_flatMap.mp member
      exact ih child childIn member

mutual

/-- The lines of a tree, in text order. -/
def lineNodes : Tree → List Tree
  | .token _ _ => []
  | .node kind children =>
      if kind = .line then [.node kind children] else allLineNodes children

def allLineNodes : List Tree → List Tree
  | [] => []
  | tree :: rest => tree.lineNodes ++ allLineNodes rest

end

@[simp]
theorem allLineNodes_append (first second : List Tree) :
    allLineNodes (first ++ second) = allLineNodes first ++ allLineNodes second := by
  induction first with
  | nil => rfl
  | cons tree rest ih => simp [allLineNodes, ih]

theorem IsLine.lineNodes {tree : Tree} (shape : IsLine tree) :
    tree.lineNodes = [tree] := by
  cases shape
  rw [Tree.lineNodes, if_pos rfl]

theorem lineNodes_of_isBlock {kind : Kind} (isBlock : kind.isBlock = true)
    (children : List Tree) :
    (Tree.node kind children).lineNodes = allLineNodes children := by
  rw [Tree.lineNodes, if_neg]
  rintro rfl
  contradiction

theorem IsLine.getLast?_children {tree : Tree} (shape : IsLine tree)
    {before : List (Kind × Nat)} {length : Nat}
    (ends : tree.leaves = before ++ [(.eol, length)]) :
    tree.children.getLast?.map kind = some .eol := by
  obtain @⟨body, trailing, inside, ending, -⟩ := shape
  cases ending with
  | token => simp [children, Tree.kind]
  | missing =>
      rw [List.append_nil, leaves, allLeaves_eq_flatMap] at ends
      have lastIn : (Kind.eol, length) ∈ body.flatMap leaves := by simp [ends]
      obtain ⟨child, childIn, member⟩ := List.mem_flatMap.mp lastIn
      exact absurd rfl ((inside child childIn).leaf_kind_ne member)

end Tree
end Asm6502
