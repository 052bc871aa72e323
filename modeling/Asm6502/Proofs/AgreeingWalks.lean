import Asm6502.Proofs.CursorMoves
import Asm6502.Proofs.WalkEvents

/-!
# Agreeing walks

Three walks lead over what stands at and below a node: a cursor that is moved on, the
events of a walker, and the recursion over the subtree.  They come to the same elements
in the same order, each once, and no move takes a cursor out of them.
-/

namespace Asm6502

open Place (preorder)

namespace Cursor

/-- The elements at which a cursor is while it is moved on until there is no next
one. -/
inductive Visits : Cursor → List Handle → Prop
  | last {cursor stopped : Cursor} :
      cursor.advance = some (false, stopped) → Visits cursor [cursor.here]
  | next {cursor moved : Cursor} {rest : List Handle} :
      cursor.advance = some (true, moved) → Visits moved rest →
        Visits cursor (cursor.here :: rest)

section

variable {arena : Arena} {tree : Tree} {top place : Place} {rest : List Place}
  (keeps : arena.Keeps tree) (isNode : tree.isNode = true)
  (topIn : top ∈ preorder ⟨tree, []⟩) (topNode : top.isNode = true)

include keeps isNode topIn topNode

theorem visits_standing (ahead : Ahead top place rest) :
    (standing arena top place).Visits ((place :: rest).map Place.handle) := by
  induction rest generalizing place with
  | nil =>
      have led := led_advance keeps isNode topIn topNode ahead
      generalize step : (standing arena top place).advance = moved at led
      cases led with
      | nowhere => exact .last step
  | cons next rest ih =>
      have led := led_advance keeps isNode topIn topNode ahead
      generalize step : (standing arena top place).advance = moved at led
      cases led with
      | next behind => exact .next step (ih behind)

/-- Moving on from a root visits all that stands at and below it. -/
theorem visits_atNode :
    (atNode arena (Crumb.nodesBefore top.above)).Visits (top.preorder.map Place.handle) := by
  rw [atNode_eq_standing topNode, Place.preorder_eq_cons]
  have ahead := ahead_top top
  rw [Place.preorder_eq_cons, List.tail_cons] at ahead
  exact visits_standing keeps isNode topIn topNode ahead

end

end Cursor

/-- The walk through a place covers what stands at and below a node of an arena. -/
structure Walk.Covers (top : Place) (arena : Arena) (number : Nat) : Prop where
  /-- A cursor visits what the walk enters and the tokens that it passes. -/
  visits : (Cursor.atNode arena number).Visits ((visited (ofPlace top)).map Place.handle)
  lists : arena.Lists (.node number) ((visited (ofPlace top)).map Place.handle)
  once : ((visited (ofPlace top)).map Place.handle).Nodup
  /-- So does the recursion over the subtree. -/
  trees : (visited (ofPlace top)).map Place.focus = (arena.nodeEntry number).tree.preorder
  same : ∀ place ∈ visited (ofPlace top),
    arena.kind place.handle = place.kind ∧ arena.span place.handle = place.span
  balanced : Balanced (ofPlace top)
  /-- Skipping behind an enter drops what is left of the node, its leave included. -/
  skips : ∀ before node rest, ofPlace top = before ++ .enter node :: rest →
    ∃ after, rest = node.children.flatMap ofPlace ++ .leave node :: after ∧
      skip? rest = some after
  reports : ∀ skips, OnlyEnters skips → Reports skips top (reported skips (ofPlace top))

theorem Walk.covers {arena : Arena} {tree : Tree} {top : Place}
    (keeps : arena.Keeps tree) (isNode : tree.isNode = true)
    (topIn : top ∈ preorder ⟨tree, []⟩) (topNode : top.isNode = true) :
    Covers top arena (Crumb.nodesBefore top.above) where
  visits := by
    rw [visited_ofPlace]
    exact Cursor.visits_atNode keeps isNode topIn topNode
  lists := by
    rw [visited_ofPlace, ← Place.handle_of_isNode topNode]
    exact keeps.lists topIn
  once := by
    rw [visited_ofPlace]
    obtain ⟨earlier, later, split, -⟩ := Arena.exists_split_preorder topIn
    have nodup := Arena.nodup_handles tree
    rw [split, List.map_append, List.map_append] at nodup
    exact nodup.of_append_right.of_append_left
  trees := by
    rw [visited_ofPlace, Place.map_focus_preorder, keeps.nodeEntry topIn topNode]
    rfl
  same place placeIn := by
    rw [visited_ofPlace] at placeIn
    have member := Place.preorder_subset_preorder topIn _ placeIn
    exact ⟨keeps.kind member, keeps.span member⟩
  balanced := balanced_ofPlace top
  skips before node rest split := by
    obtain ⟨after, rfl⟩ := complete_ofPlace top before node rest split
    exact ⟨after, rfl, skip?_children node after⟩
  reports skips only := reports_reported only top

namespace Cursor

/-- Whatever a cursor is told to do, it obeys its laws among the elements at and below
the node it was created at, and these are what all walks through the node come to. -/
theorem walks_agree {text : Bytes} {tree : Tree} {arena : Arena} {number : Nat}
    (made : Arena.ofTree? text tree = some arena) (has : arena.Has (.node number)) :
    ∃ top ∈ preorder ⟨tree, []⟩, ∃ topNode : top.isNode = true,
      top.handle = .node number ∧
      (∀ moves, ((atNode arena number).run moves).Lawful arena number
        ((Walk.visited (Walk.ofPlace top)).map Place.handle)) ∧
      Walk.Covers top arena number ∧
      (Walker.begin ⟨top, topNode⟩).Reports (Walk.ofPlace top) ∧
      ∀ walker events, Walker.Reports walker events →
        (∀ rest, Walk.skip? events = some rest ↔
          ∃ skipped, walker.skip? = some skipped ∧ skipped.Reports rest) ∧
        ∀ (before : Walker) (node : Place), before.next? = some (.enter node, walker) →
          ∃ skipped rest, walker.skip? = some skipped ∧ skipped.Reports rest ∧
            events = node.children.flatMap Walk.ofPlace ++ .leave node :: rest := by
  have laid := Arena.over_of_ofTree? made
  obtain ⟨top, topIn, topNode, rfl⟩ := laid.exists_node_of_has has
  refine ⟨top, topIn, topNode, Place.handle_of_isNode topNode, fun moves => ?_,
    Walk.covers laid.toKeeps laid.isNode topIn topNode, Walker.reports_begin ⟨top, topNode⟩,
    fun walker events reports => ⟨fun rest => reports.skip?_eq_some_iff,
      fun before node entered => reports.skip?_of_enter entered⟩⟩
  rw [Walk.visited_ofPlace]
  exact lawful_run laid.toKeeps laid.isNode topIn topNode moves

theorem walks_agree_firstLine :
    ∃ arena,
      Arena.ofTree? [97, 10, 98, 10] (.node .sourceFile
        [.node .line [.token .ident 1, .token .eol 1],
          .node .line [.token .ident 1, .token .eol 1]]) = some arena ∧
      arena.Has (.node 1) ∧
      ∃ top ∈ preorder ⟨.node .sourceFile
          [.node .line [.token .ident 1, .token .eol 1],
            .node .line [.token .ident 1, .token .eol 1]], []⟩,
        ∃ topNode : top.isNode = true,
        top.handle = .node 1 ∧
        (∀ moves, ((atNode arena 1).run moves).Lawful arena 1
          ((Walk.visited (Walk.ofPlace top)).map Place.handle)) ∧
        Walk.Covers top arena 1 ∧
        (Walker.begin ⟨top, topNode⟩).Reports (Walk.ofPlace top) ∧
        ∀ walker events, Walker.Reports walker events →
          (∀ rest, Walk.skip? events = some rest ↔
            ∃ skipped, walker.skip? = some skipped ∧ skipped.Reports rest) ∧
          ∀ (before : Walker) (node : Place), before.next? = some (.enter node, walker) →
            ∃ skipped rest, walker.skip? = some skipped ∧ skipped.Reports rest ∧
              events = node.children.flatMap Walk.ofPlace ++ .leave node :: rest := by
  have made : Arena.ofTree? [97, 10, 98, 10] (.node .sourceFile
      [.node .line [.token .ident 1, .token .eol 1],
        .node .line [.token .ident 1, .token .eol 1]]) = some _ := Arena.ofTree?_node rfl
  have has : 1 < 3 := by decide
  exact ⟨_, made, has, walks_agree made has⟩

end Cursor
end Asm6502
