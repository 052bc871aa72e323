import Asm6502.Proofs.BuiltTrees

/-!
# Where trivia are placed

A tree that could be built has the leaves that were added, in order, and every started
node that got a child.  Trivia are children of the node that is open in front of the
first call that decides where they belong.
-/

namespace Asm6502
namespace Builder

variable {calls : List Call} {call : Nat} {plan : Plan} {above : List Nat}

theorem receives_of_filled {node : Nat} {outer : List Nat} (filled : plan.Filled)
    (placed : ∀ part ∈ plan.parts (node :: outer), part.Placed calls) : Receives calls node := by
  induction filled generalizing node outer with
  | leaf =>
      obtain ⟨leaf, settling, settles, around⟩ := placed _ List.mem_cons_self
      exact .leaf leaf settles around.symm
  | node nonempty _ ih =>
      obtain ⟨started, around⟩ := placed _ List.mem_cons_self
      obtain ⟨child, rest, rfl⟩ := List.exists_cons_of_ne_nil nonempty
      have inner : Receives calls _ := ih child List.mem_cons_self fun part partIn =>
        placed part (List.mem_cons_of_mem _ (List.mem_append_left _ partIn))
      exact .node started around.symm inner

theorem receives_of_mem_parts {kind : Kind} {path : List Nat} (filled : plan.Filled)
    (placed : ∀ part ∈ plan.parts above, part.Placed calls)
    (member : .node call kind path ∈ plan.parts above) : Receives calls call := by
  induction filled generalizing above with
  | leaf => simp [Plan.parts] at member
  | @node here other children nonempty filled ih =>
      rw [Plan.parts, Plan.partsOfAll_eq_flatMap] at member placed
      have inside {child : Plan} (childIn : child ∈ children) :
          ∀ part ∈ child.parts (here :: above), part.Placed calls := fun part partIn =>
        placed part (List.mem_cons_of_mem _ (List.mem_flatMap.mpr ⟨child, childIn, partIn⟩))
      rcases List.mem_cons.mp member with same | below
      · simp only [Part.node.injEq] at same
        obtain ⟨rfl, -, -⟩ := same
        obtain ⟨child, childIn⟩ := List.exists_mem_of_ne_nil _ nonempty
        exact receives_of_filled (filled child childIn) (inside childIn)
      · obtain ⟨child, childIn, member⟩ := List.mem_flatMap.mp below
        exact ih child childIn (inside childIn) member

theorem outermost_or_receives {kind : Kind} {path : List Nat} (below : plan.FilledBelow)
    (placed : ∀ part ∈ plan.parts above, part.Placed calls)
    (member : .node call kind path ∈ plan.parts above) :
    path = above ∨ Receives calls call := by
  cases below with
  | leaf => simp [Plan.parts] at member
  | @node here other children filled =>
      rw [Plan.parts, Plan.partsOfAll_eq_flatMap] at member placed
      rcases List.mem_cons.mp member with same | inside
      · simp only [Part.node.injEq] at same
        exact .inl same.2.2
      · obtain ⟨child, childIn, member⟩ := List.mem_flatMap.mp inside
        refine .inr (receives_of_mem_parts (filled child childIn) (fun part partIn => ?_) member)
        exact placed part (List.mem_cons_of_mem _ (List.mem_flatMap.mpr ⟨child, childIn, partIn⟩))

/-- A plan is what calls mean. -/
structure Plan.Realizes (calls : List Call) (plan : Plan) : Prop where
  /-- The leaves are what was added, in the order of the calls. -/
  leaves : plan.leaves = leavesBefore calls calls.length
  /-- Every leaf stands in the nodes that are open where it settles. -/
  settles : ∀ call tree, leafAt? calls call = some tree →
    ∃ settling, Settles calls call settling ∧
      .leaf call tree (openBefore calls settling) ∈ plan.parts []
  /-- Every node stands in the nodes that are open where it is started. -/
  nodes : ∀ call kind around, .node call kind around ∈ plan.parts [] →
    startedAt? calls call = some kind ∧ around = openBefore calls call
  once : plan.starts.Pairwise (· < ·)
  /-- The nodes that are left out are those without children, apart from the root. -/
  kept : ∀ call kind, startedAt? calls call = some kind →
    (call ∈ plan.starts ↔ openBefore calls call = [] ∨ Receives calls call)
  root : ∀ call kind, startedAt? calls call = some kind → openBefore calls call = [] →
    ∃ children, plan = .node call kind children
  filled : plan.FilledBelow
  /-- Trivia are children of the node that is open where they settle. -/
  trivia : ∀ call kind length, calls[call]? = some (.token kind length) →
    kind.isTrivia = true →
      ∃ settling parent outer, call < settling ∧ Settles calls call settling ∧
        openBefore calls settling = parent :: outer ∧
        plan.HasChild parent (.leaf call (.token kind length))

theorem exists_of_done {builder : Builder} {tree : Tree} (finished : builder.done = .ok tree) :
    builder.sketch.opened = [] ∧ builder.pending = [] ∧ builder.sketch.settled = [tree] ∧
      tree.isNode = true := by
  rw [done] at finished
  split at finished
  · contradiction
  · next closed =>
      split at finished
      · contradiction
      · next settled =>
          split at finished
          · next kind children alone =>
              obtain rfl := Except.ok.inj finished
              exact ⟨by simpa using closed, by simpa using settled, alone, rfl⟩
          · contradiction

section

variable (placed : ∀ part ∈ plan.parts [], part.Placed calls)

include placed

theorem exists_node_of_mem_starts (member : call ∈ plan.starts) :
    ∃ kind, .node call kind (openBefore calls call) ∈ plan.parts [] := by
  obtain ⟨part, partIn, isStart⟩ := List.mem_filterMap.mp member
  cases part with
  | leaf => contradiction
  | node here kind around =>
      obtain rfl : here = call := Option.some_inj.mp isStart
      obtain ⟨-, rfl⟩ := placed _ partIn
      exact ⟨kind, partIn⟩

variable (leaves : plan.leaves = leavesBefore calls calls.length)

include leaves

theorem exists_settling {tree : Tree} (leaf : leafAt? calls call = some tree) :
    ∃ settling, Settles calls call settling ∧
      .leaf call tree (openBefore calls settling) ∈ plan.parts [] := by
  obtain ⟨added, found, -⟩ := Option.bind_eq_some_iff.mp leaf
  have lt := (List.getElem?_eq_some_iff.mp found).1
  have member := mem_leavesBefore_iff.mpr ⟨lt, leaf⟩
  rw [← leaves] at member
  obtain ⟨part, partIn, isLeaf⟩ := List.mem_filterMap.mp member
  cases part with
  | node => contradiction
  | leaf here other around =>
      simp only [Part.leaf?, Option.some.injEq, Prod.mk.injEq] at isLeaf
      obtain ⟨rfl, rfl⟩ := isLeaf
      obtain ⟨-, settling, settles, rfl⟩ := placed _ partIn
      exact ⟨settling, settles, partIn⟩

/-- A node that gets a child is not left out. -/
theorem mem_starts_of_receives (receives : Receives calls call) : call ∈ plan.starts := by
  have around {part : Part} (partIn : part ∈ plan.parts []) {node : Nat}
      (member : node ∈ part.above) : node ∈ plan.starts :=
    (Plan.mem_starts_of_mem_above partIn node member).resolve_left List.not_mem_nil
  induction receives with
  | leaf leaf settles opened =>
      obtain ⟨settling, also, member⟩ := exists_settling placed leaves leaf
      obtain rfl := settles.eq also
      exact around member (by simp [Part.above, opened])
  | node started opened _ ih =>
      obtain ⟨kind, member⟩ := exists_node_of_mem_starts placed ih
      exact around member (by simp [Part.above, opened])

theorem exists_parent {kind : Kind} {length : Nat} (isNode : plan.tree.isNode = true)
    (found : calls[call]? = some (.token kind length)) (trivia : kind.isTrivia = true) :
    ∃ settling parent outer, call < settling ∧ Settles calls call settling ∧
      openBefore calls settling = parent :: outer ∧
      plan.HasChild parent (.leaf call (.token kind length)) := by
  have leaf : leafAt? calls call = some (.token kind length) := by
    simp [leafAt?, found, Call.leaf?]
  obtain ⟨settling, settles, member⟩ := exists_settling placed leaves leaf
  have later : call < settling := by
    refine Nat.lt_of_le_of_ne settles.le ?_
    rintro rfl
    have decided := settles.decided
    simp [decides, found, trivia] at decided
  -- Outside of all nodes they would be the whole tree, which is a node.
  rcases Plan.hasChild_of_mem_parts member with ⟨rfl, -⟩ | ⟨parent, outer, opened, child⟩
  · contradiction
  · exact ⟨settling, parent, outer, later, settles, opened, child⟩

theorem realizes (isNode : plan.tree.isNode = true) (filled : plan.FilledBelow)
    (starts : plan.starts.Sublist (startsBefore calls calls.length))
    (outermost : ∀ call kind, startedAt? calls call = some kind → openBefore calls call = [] →
      call ∈ plan.starts) : plan.Realizes calls where
  leaves := leaves
  settles call tree leaf := exists_settling placed leaves leaf
  nodes call kind around member := placed _ member
  once := (pairwise_startsBefore calls calls.length).sublist starts
  kept call kind started := by
    constructor
    · intro member
      obtain ⟨other, inside⟩ := exists_node_of_mem_starts placed member
      exact outermost_or_receives filled placed inside
    · rintro (outer | receives)
      · exact outermost call kind started outer
      · exact mem_starts_of_receives placed leaves receives
  root call kind started outer := by
    obtain ⟨other, inside⟩ :=
      exists_node_of_mem_starts placed (outermost call kind started outer)
    obtain ⟨same, -⟩ := placed _ inside
    obtain rfl : kind = other := Option.some_inj.mp (started.symm.trans same)
    rw [outer] at inside
    rcases Plan.eq_or_length_lt_of_mem_parts inside with ⟨children, alone, -⟩ | deeper
    · exact ⟨children, alone⟩
    · exact absurd deeper (Nat.lt_irrefl _)
  filled := filled
  trivia call kind length found trivia := exists_parent placed leaves isNode found trivia

end

/-- Calls that build a tree build what they mean: the leaves are those that were added,
and all parts stand where their calls say. -/
theorem build_realizes {calls : List Call} {tree : Tree} (built : build calls = .ok tree) :
    tree.leaves = (calls.filterMap Call.leaf?).flatMap Tree.leaves ∧
      ∃ plan : Plan, plan.tree = tree ∧ plan.Realizes calls := by
  rw [build] at built
  cases carried : performAll calls {} with
  | error reason => simp [carried, Except.bind] at built
  | ok builder =>
      rw [carried] at built
      obtain ⟨opened, pending, settled, isNode⟩ := exists_of_done built
      have whole : calls = [] ++ calls := rfl
      obtain ⟨layout, follows, rfl⟩ :=
        Layout.exists_follows calls [] {} whole (Layout.follows_nil calls) carried
      obtain ⟨plans, frames, waiting⟩ := layout
      obtain rfl : frames = [] := List.map_eq_nil_iff.mp opened
      obtain rfl : waiting = [] := List.map_eq_nil_iff.mp pending
      obtain ⟨plan, rfl, rfl⟩ := List.map_eq_singleton_iff.mp settled
      have parts : Layout.parts ⟨[plan], [], []⟩ = plan.parts [] := by
        simp [Layout.parts, Layout.partsIn, Plan.partsOfAll]
      have leaves : plan.leaves = leavesBefore calls calls.length := by
        rw [← follows.leaves, parts, Plan.leaves]
        exact (List.append_nil _).symm
      have placed := follows.placed
      have starts := follows.starts
      have outermost := follows.outermost
      rw [parts] at placed starts outermost
      refine ⟨?_, plan, rfl, realizes placed leaves isNode (follows.settled plan (by simp)) starts
        fun call kind started outer => outermost call kind ?_ started outer⟩
      · rw [Plan.leaves_tree plan [], ← Plan.leaves, leaves, ← map_snd_leavesBefore,
          List.flatMap_map]
      · obtain ⟨added, found, -⟩ := Option.bind_eq_some_iff.mp started
        exact (List.getElem?_eq_some_iff.mp found).1

/-- Blanks in front of a line, a comment in front of an operand that stays empty. -/
def crossing : List Call :=
  [.start .sourceFile, .token .whitespace 2, .start .line, .start .instruction,
    .token .mnemonic 3, .finish, .token .comment 4, .start .operand, .finish, .finish, .finish]

theorem build_realizes_crossing :
    build crossing =
        .ok (.node .sourceFile [.node .line [.token .whitespace 2,
          .node .instruction [.token .mnemonic 3], .token .comment 4]]) ∧
      (Tree.node .sourceFile [.node .line [.token .whitespace 2,
          .node .instruction [.token .mnemonic 3], .token .comment 4]]).leaves =
        (crossing.filterMap Call.leaf?).flatMap Tree.leaves ∧
      ∃ plan : Plan,
        plan.tree = .node .sourceFile [.node .line [.token .whitespace 2,
          .node .instruction [.token .mnemonic 3], .token .comment 4]] ∧
        plan.Realizes crossing :=
  ⟨rfl, build_realizes rfl⟩

end Builder
end Asm6502
