import Asm6502.Parse
import Asm6502.Proofs.DraftMoves
import Asm6502.Proofs.DiagnosticOrder
import Asm6502.Proofs.TreePlaces

/-!
# Where things stand in a text's tree

The root of a text holds passages.  Every place below it is a line or a block,
stands inside a line, or is the end of a line, and the nodes above it tell which.
-/

namespace Asm6502

namespace Place

/-- Where a place stands in a tree whose root holds passages. -/
inductive Stands : Place → Prop
  | root {trees : List Tree} :
      (∀ tree ∈ trees, Tree.IsPassage tree) → Stands ⟨.node .sourceFile trees, []⟩
  | passage {tree : Tree} {above : List Crumb} :
      Tree.IsPassage tree → (∀ crumb ∈ above, crumb.kind ≠ .line) → above ≠ [] →
        Stands ⟨tree, above⟩
  | inside {tree : Tree} {above : List Crumb} :
      Tree.IsInline tree → above ≠ [] → Stands ⟨tree, above⟩
  | lineEnd {length : Nat} {before : List Tree} {outer : List Crumb} :
      0 < length → Stands ⟨.token .eol length, ⟨.line, before, []⟩ :: outer⟩

theorem stands_line_child {body ends : List Tree} {above : List Crumb}
    (inside : ∀ tree ∈ body, Tree.IsInline tree) (ending : Tree.IsLineEnd ends)
    {child : Place} (member : child ∈ children ⟨.node .line (body ++ ends), above⟩) :
    Stands child := by
  obtain ⟨earlier, tree, after, split, rfl⟩ := mem_among member
  cases ending with
  | missing =>
      rw [List.append_nil] at split
      exact .inside (inside tree (by simp [split])) (by simp)
  | @token length positive =>
      rcases List.eq_nil_or_concat after with none | ⟨between, last, rfl⟩
      · subst none
        obtain ⟨-, lastEq⟩ := List.append_inj' split rfl
        obtain rfl : .token .eol length = tree := by simpa using lastEq
        exact .lineEnd positive
      · have cut : body ++ [.token .eol length] =
            (earlier ++ tree :: between) ++ [last] := by
          simpa using split
        obtain ⟨rfl, -⟩ := List.append_inj' cut rfl
        exact .inside (inside tree (by simp)) (by simp)

theorem Stands.child {place : Place} (stands : Stands place) :
    ∀ child ∈ place.children, Stands child := by
  intro child member
  cases stands with
  | root shape =>
      obtain ⟨earlier, tree, after, rfl, rfl⟩ := mem_among member
      exact .passage (shape tree (by simp)) (by simp) (by simp)
  | passage shape outside =>
      cases shape with
      | line shape =>
          cases shape with
          | intro inside ending => exact stands_line_child inside ending member
      | @block kind trees isBlock _ shape =>
          obtain ⟨earlier, tree, after, rfl, rfl⟩ := mem_among member
          refine .passage (shape tree (by simp)) ?_ (by simp)
          intro crumb crumbIn
          rcases List.mem_cons.mp crumbIn with rfl | crumbIn
          · rintro rfl
            contradiction
          · exact outside crumb crumbIn
  | inside shape =>
      cases shape with
      | token => contradiction
      | node _ _ shape =>
          obtain ⟨earlier, tree, after, rfl, rfl⟩ := mem_among member
          exact .inside (shape tree (by simp)) (by simp)
  | lineEnd => contradiction

variable {trees : List Tree}

theorem stands_of_mem_preorder (shape : ∀ tree ∈ trees, Tree.IsPassage tree) :
    ∀ place ∈ preorder ⟨.node .sourceFile trees, []⟩, Stands place :=
  forall_mem_preorder (fun _ => Stands.child) (.root shape)

theorem Stands.length_pos {place : Place} (stands : Stands place)
    (below : place.above ≠ []) : 0 < place.length := by
  cases stands with
  | root => contradiction
  | passage shape => exact shape.length_pos
  | inside shape => exact shape.length_pos
  | lineEnd positive => exact positive

theorem Stands.kind_cases_of_passage {tree : Tree} (shape : Tree.IsPassage tree) :
    tree.kind = .line ∨ tree.kind.isBlock = true := by
  cases shape with
  | line shape => cases shape; exact .inl rfl
  | block isBlock => exact .inr isBlock

/-- A line end is the last child of a line. -/
theorem Stands.of_eol {place : Place} (stands : Stands place)
    (isEol : place.kind = .eol) :
    (place.parent?.map kind = some .line) ∧ place.next? = none := by
  cases stands with
  | root => contradiction
  | @passage tree above shape =>
      have isEol : tree.kind = .eol := isEol
      rcases kind_cases_of_passage shape with isLine | isBlock
      · rw [isLine] at isEol
        contradiction
      · rw [isEol] at isBlock
        contradiction
  | inside shape => exact absurd isEol shape.kind_ne.1
  | lineEnd => exact ⟨rfl, rfl⟩

theorem Stands.of_line {place : Place} (stands : Stands place)
    (isLine : place.kind = .line) :
    Tree.IsLine place.focus ∧ ∀ crumb ∈ place.above, crumb.kind ≠ .line := by
  cases stands with
  | root => contradiction
  | passage shape outside =>
      cases shape with
      | line shape => exact ⟨shape, outside⟩
      | block isBlock =>
          obtain rfl := isLine
          contradiction
  | inside shape => exact absurd isLine shape.kind_ne.2
  | lineEnd => contradiction

theorem kind_of_mem_enclosing (focus : Tree) (above : List Crumb) {place : Place}
    (member : place ∈ enclosing focus above) :
    ∃ crumb ∈ above, place.kind = crumb.kind := by
  induction above generalizing focus with
  | nil => contradiction
  | cons crumb outer ih =>
      rcases List.mem_cons.mp member with rfl | further
      · exact ⟨crumb, by simp, rfl⟩
      · obtain ⟨other, otherIn, same⟩ := ih _ further
        exact ⟨other, by simp [otherIn], same⟩

theorem kind_ne_line_of_below {tree : Tree} {above : List Crumb}
    (shape : Tree.IsLine tree) {place : Place}
    (member : place ∈ (children ⟨tree, above⟩).flatMap preorder) :
    place.kind ≠ .line := by
  obtain ⟨child, childIn, below⟩ := List.mem_flatMap.mp member
  have step (place : Place)
      (inLine : Tree.IsInline place.focus ∨ ∃ length, place.focus = .token .eol length) :
      ∀ child ∈ place.children,
        Tree.IsInline child.focus ∨ ∃ length, child.focus = .token .eol length := by
    intro child member
    have focusIn := focus_mem_children member
    rcases inLine with shape | ⟨length, isEol⟩
    · cases focusEq : place.focus with
      | token => simp [focusEq, Tree.children] at focusIn
      | node kind trees =>
          rw [focusEq] at shape focusIn
          cases shape with
          | node _ _ shape => exact .inl (shape _ focusIn)
    · simp [isEol, Tree.children] at focusIn
  have start : Tree.IsInline child.focus ∨ ∃ length, child.focus = .token .eol length := by
    obtain @⟨body, ends, inside, ending, -⟩ := shape
    have focusIn : child.focus ∈ body ++ ends := focus_mem_children childIn
    rcases List.mem_append.mp focusIn with inBody | inEnds
    · exact .inl (inside _ inBody)
    · cases ending with
      | missing => contradiction
      | token => exact .inr ⟨_, by simpa using inEnds⟩
  rcases forall_mem_preorder step start place below with inline | ⟨length, isEol⟩
  · exact inline.kind_ne.2
  · rw [kind, isEol]
    simp [Tree.kind]

theorem flatMap_among {α : Type} {f : Place → List α} {g : Tree → List α}
    {trees : List Tree} (same : ∀ tree ∈ trees, ∀ above, f ⟨tree, above⟩ = g tree)
    (kind : Kind) (outer : List Crumb) (before : List Tree) :
    (among kind outer before trees).flatMap f = trees.flatMap g := by
  induction trees generalizing before with
  | nil => rfl
  | cons tree after ih =>
      rw [among, List.flatMap_cons, List.flatMap_cons, same tree (by simp),
        ih fun other member => same other (by simp [member])]

/-- The lines at or below a place, in text order. -/
def lines (place : Place) : List Place :=
  place.preorder.filter fun other => other.kind == .line

theorem mem_lines_iff {place line : Place} :
    line ∈ place.lines ↔ line ∈ place.preorder ∧ line.kind = .line := by
  simp [lines]

theorem lines_eq (place : Place) :
    place.lines =
      (if place.kind == .line then [place] else []) ++ place.children.flatMap lines := by
  rw [lines, preorder_eq_cons, List.filter_cons, List.filter_flatMap]
  split <;> rfl

theorem lines_among {trees : List Tree}
    (each : ∀ tree ∈ trees, ∀ above, (lines ⟨tree, above⟩).map focus = tree.lineNodes)
    (kind : Kind) (above : List Crumb) :
    ((among kind above [] trees).flatMap lines).map focus = Tree.allLineNodes trees := by
  rw [List.map_flatMap,
    flatMap_among (f := fun place => place.lines.map focus) each kind above []]
  induction trees with
  | nil => rfl
  | cons tree rest ih =>
      rw [List.flatMap_cons, ih fun other member => each other (by simp [member]),
        Tree.allLineNodes]

theorem lines_of_isPassage {tree : Tree} (shape : Tree.IsPassage tree)
    (above : List Crumb) : (lines ⟨tree, above⟩).map focus = tree.lineNodes := by
  induction shape generalizing above with
  | @line tree shape =>
      have noneBelow : (children ⟨tree, above⟩).flatMap lines = [] := by
        have filtered : ((children ⟨tree, above⟩).flatMap preorder).filter
            (fun place => place.kind == .line) = [] := by
          rw [List.filter_eq_nil_iff]
          intro place member
          simpa using kind_ne_line_of_below shape member
        rwa [List.filter_flatMap] at filtered
      have isLine : tree.kind = .line := by cases shape; rfl
      rw [lines_eq, noneBelow, shape.lineNodes]
      simp [kind, isLine]
  | @block kind trees isBlock nonempty shape ih =>
      have notLine : ¬ (Place.kind ⟨.node kind trees, above⟩ == .line) = true := by
        intro isLine
        obtain rfl : kind = .line := by simpa [Place.kind, Tree.kind] using isLine
        contradiction
      rw [lines_eq, if_neg notLine, Tree.lineNodes_of_isBlock isBlock]
      exact lines_among ih kind above

theorem lines_of_root (shape : ∀ tree ∈ trees, Tree.IsPassage tree) :
    (lines ⟨.node .sourceFile trees, []⟩).map focus = Tree.allLineNodes trees := by
  rw [lines_eq, if_neg (by simp [kind, Tree.kind])]
  exact lines_among (fun tree member => lines_of_isPassage (shape tree member)) _ _

theorem above_ne_nil_of_mem_children {place child : Place} (member : child ∈ place.children) :
    child.above ≠ [] := by
  obtain ⟨focus, above⟩ := place
  cases focus with
  | token => contradiction
  | node kind trees =>
      obtain ⟨_, _, _, -, rfl⟩ := mem_among member
      simp

theorem above_ne_nil_of_below {place child : Place} (member : child ∈ place.children)
    {below : Place} (inChild : below ∈ child.preorder) : below.above ≠ [] :=
  forall_mem_preorder (motive := fun place => place.above ≠ [])
    (fun _ _ _ grandchildIn => above_ne_nil_of_mem_children grandchildIn)
    (above_ne_nil_of_mem_children member) below inChild

section

variable (shape : ∀ tree ∈ trees, Tree.IsPassage tree)

include shape

theorem tile_tokens_of_root :
    Span.Tile 0 (Tree.totalLength trees)
      ((tokens ⟨.node .sourceFile trees, []⟩).map span) := by
  have positive : ∀ leaf ∈ Tree.allLeaves trees, 0 < leaf.2 := by
    intro leaf member
    rw [Tree.allLeaves_eq_flatMap] at member
    obtain ⟨tree, treeIn, member⟩ := List.mem_flatMap.mp member
    exact (shape tree treeIn).leaf_length_pos member
  have tiled := Tree.tile_spansFrom positive 0
  have leaves := congrArg (List.map Prod.snd) (map_tokens ⟨.node .sourceFile trees, []⟩)
  rw [List.map_map] at leaves
  rw [Tree.leafLength_allLeaves, Nat.zero_add] at tiled
  refine cast (congrArg _ ?_) tiled
  exact leaves.symm

theorem tile_children_of_root {place : Place}
    (member : place ∈ preorder ⟨.node .sourceFile trees, []⟩) (isNode : place.isNode = true) :
    Span.Tile place.start place.stop (place.children.map span) := by
  apply tile_children isNode
  intro child childIn
  exact ((stands_of_mem_preorder shape place member).child child childIn).length_pos
    (above_ne_nil_of_mem_children childIn)

theorem eq_root_of_empty {place : Place}
    (member : place ∈ preorder ⟨.node .sourceFile trees, []⟩) (empty : place.length = 0) :
    place = ⟨.node .sourceFile trees, []⟩ := by
  have stands := stands_of_mem_preorder shape place member
  rcases mem_preorder_iff.mp member with isRoot | ⟨child, childIn, inChild⟩
  · exact isRoot
  · have positive := stands.length_pos (above_ne_nil_of_below childIn inChild)
    omega

theorem kind_cases_of_root {child : Place}
    (member : child ∈ children ⟨.node .sourceFile trees, []⟩) :
    child.kind = .line ∨ child.kind.isBlock = true := by
  obtain ⟨earlier, tree, after, rfl, rfl⟩ := mem_among member
  exact Stands.kind_cases_of_passage (shape tree (by simp))

end

end Place

/-- The tree of a parse covers a text: its leaves tile the text, its nodes are
tiled by their children, and only the root can be empty.  At the top stand lines
and blocks.  Diagnostics are in order and point into the text. -/
structure Parse.Covers (text : Bytes) (parse : Parse) : Prop where
  textEq : parse.text = text
  rootKind : parse.root.kind = .sourceFile
  rootSpan : Place.span ⟨parse.root, []⟩ = ⟨0, text.length⟩
  leaves : Span.Tile 0 text.length ((Place.tokens ⟨parse.root, []⟩).map Place.span)
  nodes :
    ∀ place ∈ Place.preorder ⟨parse.root, []⟩, place.isNode = true →
      Span.Tile place.start place.stop (place.children.map Place.span)
  nonempty :
    ∀ place ∈ Place.preorder ⟨parse.root, []⟩, place.length = 0 →
      place = ⟨parse.root, []⟩
  top :
    ∀ child ∈ Place.children ⟨parse.root, []⟩,
      child.kind = .line ∨ child.kind.isBlock = true
  ordered : Diagnostic.Ordered parse.diagnostics
  within : ∀ diagnostic ∈ parse.diagnostics, diagnostic.span.Within text.length

open Place in
/-- A root of passages that is as long as the text covers it. -/
theorem Parse.covers_of_passages {text : Bytes} {trees : List Tree} {parse : Parse}
    (root : parse.root = .node .sourceFile trees)
    (shape : ∀ tree ∈ trees, Tree.IsPassage tree)
    (length : Tree.totalLength trees = text.length) (textEq : parse.text = text)
    (ordered : Diagnostic.Ordered parse.diagnostics)
    (within : ∀ diagnostic ∈ parse.diagnostics, diagnostic.span.Within text.length) :
    parse.Covers text where
  textEq := textEq
  rootKind := by
    rw [root]
    rfl
  rootSpan := by
    rw [root, ← length]
    simp [span, start, Place.length, Tree.length, Crumb.offset]
  leaves := by
    rw [root, ← length]
    exact tile_tokens_of_root shape
  nodes := by
    rw [root]
    exact fun _ => tile_children_of_root shape
  nonempty := by
    rw [root]
    exact fun _ => eq_root_of_empty shape
  top := by
    rw [root]
    exact fun _ => kind_cases_of_root shape
  ordered := ordered
  within := within

end Asm6502
