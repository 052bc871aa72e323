import Asm6502.Proofs.BuilderPlans

/-!
# Built trees

After any calls, what a builder holds has its place by what the calls mean: leaves
stand in the order of the calls, each in the nodes that are open where it settles, and
started nodes stand in the nodes that they were started in.  Only nodes without children
have been left out.
-/

namespace Asm6502
namespace Builder

variable {calls : List Call} {call : Call} {position : Nat}

/-- A part comes from its call and stands where that says. -/
def Part.Placed (calls : List Call) : Part → Prop
  | .leaf call tree above =>
      leafAt? calls call = some tree ∧
        ∃ settling, Settles calls call settling ∧ above = openBefore calls settling
  | .node call kind above => startedAt? calls call = some kind ∧ above = openBefore calls call

namespace Layout

variable {layout : Layout} {plan : Plan} {kind : Kind} {tree : Tree}

/-- Open nodes have the kinds that they were started with, and apart from outermost nodes
all closed ones have children. -/
structure Shaped (calls : List Call) (layout : Layout) : Prop where
  kinds : ∀ frame ∈ layout.opened, startedAt? calls frame.call = some frame.kind
  settled : ∀ plan ∈ layout.settled, plan.FilledBelow
  filled : ∀ frame ∈ layout.opened, ∀ plan ∈ frame.children, plan.Filled

theorem Shaped.add (shaped : layout.Shaped calls) (below : plan.FilledBelow)
    (filled : layout.opened ≠ [] → plan.Filled) : (layout.add plan).Shaped calls := by
  obtain ⟨settled, _ | ⟨frame, outer⟩, pending⟩ := layout
  · refine ⟨shaped.kinds, ?_, shaped.filled⟩
    rintro other (_ | ⟨_, otherIn⟩)
    · exact below
    · exact shaped.settled other otherIn
  · have here := filled (List.cons_ne_nil _ _)
    refine ⟨?_, shaped.settled, ?_⟩
    · rintro other (_ | ⟨_, otherIn⟩)
      · exact shaped.kinds frame List.mem_cons_self
      · exact shaped.kinds other (List.mem_cons_of_mem _ otherIn)
    · rintro other (_ | ⟨_, otherIn⟩) child childIn
      · rcases List.mem_cons.mp childIn with rfl | earlier
        · exact here
        · exact shaped.filled frame List.mem_cons_self child earlier
      · exact shaped.filled other (List.mem_cons_of_mem _ otherIn) child childIn

theorem Shaped.addAll (shaped : layout.Shaped calls) {plans : List Plan}
    (filled : ∀ plan ∈ plans, plan.Filled) : (layout.addAll plans).Shaped calls := by
  induction plans generalizing layout with
  | nil => exact shaped
  | cons plan rest ih =>
      have here := filled plan (by simp)
      exact ih (shaped.add here.filledBelow fun _ => here)
        fun other otherIn => filled other (by simp [otherIn])

theorem Shaped.close (shaped : layout.Shaped calls) : layout.close.Shaped calls := by
  obtain ⟨settled, _ | ⟨frame, outer⟩, pending⟩ := layout
  · exact shaped
  · have others : Shaped calls ⟨settled, outer, pending⟩ :=
      ⟨fun other otherIn => shaped.kinds other (List.mem_cons_of_mem _ otherIn), shaped.settled,
        fun other otherIn => shaped.filled other (List.mem_cons_of_mem _ otherIn)⟩
    have children : ∀ child ∈ frame.children.reverse, child.Filled := fun child childIn =>
      shaped.filled frame List.mem_cons_self child (List.mem_reverse.mp childIn)
    rw [Layout.close]
    cases empty : frame.children.isEmpty && !outer.isEmpty with
    | true => simpa [empty] using others
    | false =>
        simp only [empty, Bool.false_eq_true, if_false]
        refine others.add (.node children) fun nested => .node (fun childless => ?_) children
        simp_all

theorem filled_held (layout : Layout) : ∀ plan ∈ layout.held, plan.Filled := by
  intro plan planIn
  obtain ⟨entry, -, rfl⟩ := List.mem_map.mp planIn
  exact .leaf

/-- What is held in front of the call at a position is what the calls up to there mean. -/
structure Follows (calls : List Call) (position : Nat) (layout : Layout) : Prop
    extends Shaped calls layout where
  stack : layout.stack = openBefore calls position
  placed : ∀ part ∈ layout.parts, part.Placed calls
  /-- All that was added is there or held back, in order. -/
  leaves : layout.parts.filterMap Part.leaf? ++
    layout.pending.map (fun (call, kind, length) => (call, Tree.token kind length)) =
      leavesBefore calls position
  /-- No call has decided where the trivia held back belong. -/
  waits : ∀ entry ∈ layout.pending, ∀ between, entry.1 ≤ between → between < position →
    decides calls between = false
  starts : (layout.parts.filterMap Part.start?).Sublist (startsBefore calls position)
  outermost : ∀ call kind, call < position → startedAt? calls call = some kind →
    openBefore calls call = [] → call ∈ layout.parts.filterMap Part.start?

theorem follows_nil (calls : List Call) : Follows calls 0 {} where
  kinds := by simp
  settled := by simp
  filled := by simp
  stack := rfl
  placed := by simp [parts, partsIn, Plan.partsOfAll]
  leaves := rfl
  waits := by simp
  starts := by simp [parts, partsIn, Plan.partsOfAll]
  outermost := by simp

/-- Nothing is held back, or the next call leaves it there. -/
def Idle (calls : List Call) (position : Nat) (layout : Layout) : Prop :=
  layout.pending = [] ∨ decides calls position = false

theorem Follows.waits_succ (follows : layout.Follows calls position)
    (idle : layout.Idle calls position) :
    ∀ entry ∈ layout.pending, ∀ between, entry.1 ≤ between → between < position + 1 →
      decides calls between = false := by
  intro entry entryIn between from_ lt
  rcases Nat.lt_succ_iff_lt_or_eq.mp lt with earlier | rfl
  · exact follows.waits entry entryIn between from_ earlier
  · rcases idle with none | waits
    · rw [none] at entryIn
      contradiction
    · exact waits

theorem partsOfAll_held (above : List Nat) (layout : Layout) :
    Plan.partsOfAll above layout.held =
      layout.pending.map fun (call, kind, length) => .leaf call (.token kind length) above := by
  rw [held]
  induction layout.pending with
  | nil => rfl
  | cons entry rest ih => rw [List.map_cons, Plan.partsOfAll, ih]; rfl

theorem parts_flush (layout : Layout) :
    layout.flush.parts = layout.parts ++ layout.pending.map fun (call, kind, length) =>
      .leaf call (.token kind length) layout.stack := by
  rw [← partsOfAll_held]
  exact parts_addAll layout layout.held

theorem leaves_flush (layout : Layout) :
    layout.flush.parts.filterMap Part.leaf? =
      layout.parts.filterMap Part.leaf? ++
        layout.pending.map fun (call, kind, length) => (call, Tree.token kind length) := by
  rw [parts_flush, List.filterMap_append, List.filterMap_map, ← List.filterMap_eq_map]
  rfl

theorem starts_flush (layout : Layout) :
    layout.flush.parts.filterMap Part.start? = layout.parts.filterMap Part.start? := by
  have none : (layout.pending.map fun (call, kind, length) =>
      Part.leaf call (.token kind length) layout.stack).filterMap Part.start? = [] := by
    simp [Part.start?]
  rw [parts_flush, List.filterMap_append, none, List.append_nil]

theorem Follows.flush (follows : layout.Follows calls position)
    (decided : decides calls position = true) : layout.flush.Follows calls position := by
  have shaped := follows.toShaped.addAll (filled_held layout)
  refine ⟨⟨shaped.kinds, shaped.settled, shaped.filled⟩, ?_, ?_, ?_, ?_, ?_, ?_⟩
  · exact (stack_addAll layout layout.held).trans follows.stack
  · intro part partIn
    rw [parts_flush] at partIn
    rcases List.mem_append.mp partIn with earlier | settling
    · exact follows.placed part earlier
    -- Nothing has decided since it was held back, so it settles at this call.
    · obtain ⟨⟨call, kind, length⟩, heldIn, rfl⟩ := List.mem_map.mp settling
      have added : (call, Tree.token kind length) ∈ leavesBefore calls position := by
        rw [← follows.leaves]
        exact List.mem_append_right _ (List.mem_map_of_mem heldIn)
      obtain ⟨lt, leaf⟩ := mem_leavesBefore_iff.mp added
      exact ⟨leaf, position, ⟨Nat.le_of_lt lt, decided, follows.waits _ heldIn⟩, follows.stack⟩
  · rw [leaves_flush, ← follows.leaves]
    exact List.append_nil _
  · rintro entry entryIn
    contradiction
  · rw [starts_flush]
    exact follows.starts
  · rw [starts_flush]
    exact follows.outermost

theorem Follows.enter (follows : layout.Follows calls position)
    (found : calls[position]? = some (.start kind)) (idle : layout.Idle calls position) :
    (layout.enter position kind).Follows calls (position + 1) := by
  have started : startedAt? calls position = some kind := by simp [startedAt?, found, Call.started?]
  have leafless : leafAt? calls position = none := by simp [leafAt?, found, Call.leaf?]
  refine ⟨⟨?_, follows.settled, ?_⟩, ?_, ?_, ?_, follows.waits_succ idle, ?_, ?_⟩
  · rintro frame (_ | ⟨_, frameIn⟩)
    · exact started
    · exact follows.kinds frame frameIn
  · rintro frame (_ | ⟨_, frameIn⟩)
    · simp
    · exact follows.filled frame frameIn
  · rw [openBefore_start found, ← follows.stack]
    rfl
  · intro part partIn
    rw [parts_enter] at partIn
    rcases List.mem_append.mp partIn with earlier | here
    · exact follows.placed part earlier
    · obtain rfl := List.mem_singleton.mp here
      exact ⟨started, follows.stack⟩
  · rw [parts_enter, leavesBefore_succ, leafless, ← follows.leaves]
    simp [Part.leaf?, Layout.enter]
  · rw [parts_enter, startsBefore_succ_of_eq_some started, List.filterMap_append]
    exact follows.starts.append_right _
  · intro call kind lt startedCall outer
    rw [parts_enter, List.filterMap_append, List.mem_append]
    rcases Nat.lt_succ_iff_lt_or_eq.mp lt with earlier | rfl
    · exact .inl (follows.outermost call kind earlier startedCall outer)
    · exact .inr (by simp [Part.start?])

theorem Follows.place (follows : layout.Follows calls position)
    (leaf : leafAt? calls position = some tree) (decided : decides calls position = true)
    (empty : layout.pending = []) :
    (layout.add (.leaf position tree)).Follows calls (position + 1) := by
  have unstarted := startedAt?_eq_none_of_leafAt? leaf
  have shaped : (layout.add (.leaf position tree)).Shaped calls :=
    follows.toShaped.add .leaf fun _ => .leaf
  have pending := (pending_add layout (.leaf position tree)).trans empty
  have settles : Settles calls position position :=
    ⟨Nat.le_refl _, decided, fun between from_ lt => absurd lt (Nat.not_lt.mpr from_)⟩
  have starts : (layout.add (.leaf position tree)).parts.filterMap Part.start? =
      layout.parts.filterMap Part.start? := by
    simp [parts_add, Plan.parts, Part.start?]
  refine ⟨shaped, ?_, ?_, ?_, ?_, ?_, ?_⟩
  · rw [stack_add, openBefore_leaf leaf, follows.stack]
  · intro part partIn
    rw [parts_add] at partIn
    rcases List.mem_append.mp partIn with earlier | here
    · exact follows.placed part earlier
    · obtain rfl := List.mem_singleton.mp here
      exact ⟨leaf, position, settles, follows.stack⟩
  · rw [parts_add, leavesBefore_succ, leaf, ← follows.leaves, pending, empty]
    simp [Plan.parts, Part.leaf?]
  · simp [pending]
  · rw [starts, startsBefore_succ_of_eq_none unstarted]
    exact follows.starts
  · intro call kind lt startedCall outer
    rw [starts]
    exact follows.outermost call kind (lt_of_startedAt? lt startedCall unstarted) startedCall outer

theorem Follows.hold {length : Nat} (follows : layout.Follows calls position)
    (found : calls[position]? = some (.token kind length)) (trivia : kind.isTrivia = true) :
    ({ layout with pending := layout.pending ++ [(position, kind, length)] } : Layout).Follows
      calls (position + 1) := by
  have leaf : leafAt? calls position = some (.token kind length) := by
    simp [leafAt?, found, Call.leaf?]
  have unstarted := startedAt?_eq_none_of_leafAt? leaf
  have waits : decides calls position = false := by simp [decides, found, trivia]
  refine ⟨⟨follows.kinds, follows.settled, follows.filled⟩, ?_, follows.placed, ?_, ?_, ?_, ?_⟩
  · rw [openBefore_leaf leaf]
    exact follows.stack
  · rw [leavesBefore_succ, leaf, ← follows.leaves]
    simp only [List.map_append, List.append_assoc]
    rfl
  · intro entry entryIn between from_ lt
    rcases List.mem_append.mp entryIn with earlier | here
    · exact follows.waits_succ (.inr waits) entry earlier between from_ lt
    · obtain rfl := List.mem_singleton.mp here
      obtain rfl : between = position := Nat.le_antisymm (Nat.le_of_lt_succ lt) from_
      exact waits
  · rw [startsBefore_succ_of_eq_none unstarted]
    exact follows.starts
  · intro call kind lt startedCall outer
    exact follows.outermost call kind (lt_of_startedAt? lt startedCall unstarted) startedCall outer

/-- Another layout has the same leaves, and of the nodes only inner ones can be missing. -/
structure Retains (calls : List Call) (layout other : Layout) : Prop where
  parts : ∀ part ∈ other.parts, part ∈ layout.parts
  leaves : other.parts.filterMap Part.leaf? = layout.parts.filterMap Part.leaf?
  starts : (other.parts.filterMap Part.start?).Sublist (layout.parts.filterMap Part.start?)
  outermost : ∀ call ∈ layout.parts.filterMap Part.start?, openBefore calls call = [] →
    call ∈ other.parts.filterMap Part.start?

theorem retains_of_parts_eq {other : Layout} (same : other.parts = layout.parts) :
    Retains calls layout other where
  parts part partIn := same ▸ partIn
  leaves := by rw [same]
  starts := by rw [same]
  outermost call callIn _ := by rwa [same]

/-- Closing a node leaves out no part, or a node that is not outermost. -/
theorem Follows.retains_close (follows : layout.Follows calls position) :
    Retains calls layout layout.close := by
  cases opened : layout.opened with
  | nil => exact retains_of_parts_eq (by simp [Layout.close, opened])
  | cons frame outer =>
      rcases parts_close opened with same | ⟨inner, -, left⟩
      · exact retains_of_parts_eq same
      · have node := follows.placed (.node frame.call frame.kind (outer.map Frame.call))
          (by simp [left])
        constructor
        case parts =>
          intro part partIn
          rw [left]
          exact List.mem_append_left _ partIn
        case leaves => simp [left, Part.leaf?]
        case starts =>
          rw [left, List.filterMap_append]
          exact List.sublist_append_left _ _
        case outermost =>
          -- The node that is missing was started in another one.
          intro call callIn outermost
          rw [left, List.filterMap_append, List.mem_append] at callIn
          rcases callIn with earlier | here
          · exact earlier
          · obtain rfl : call = frame.call := by simpa [Part.start?] using here
            have around := node.2.trans outermost
            exact absurd (List.map_eq_nil_iff.mp around) inner

theorem Follows.close (follows : layout.Follows calls position)
    (found : calls[position]? = some .finish) (idle : layout.Idle calls position) :
    layout.close.Follows calls (position + 1) := by
  have unstarted : startedAt? calls position = none := by
    simp [startedAt?, found, Call.started?]
  have leafless : leafAt? calls position = none := by simp [leafAt?, found, Call.leaf?]
  have retains := follows.retains_close
  refine ⟨follows.toShaped.close, ?_,
    fun part partIn => follows.placed part (retains.parts part partIn), ?_, ?_, ?_, ?_⟩
  · rw [openBefore_finish found, ← follows.stack]
    cases opened : layout.opened with
    | nil => simp [Layout.close, Layout.stack, opened]
    | cons frame outer => exact stack_close opened
  · rw [retains.leaves, pending_close, leavesBefore_succ, leafless, ← follows.leaves]
    simp
  · rw [pending_close]
    exact follows.waits_succ idle
  · rw [startsBefore_succ_of_eq_none unstarted]
    exact retains.starts.trans follows.starts
  · intro call kind lt startedCall outer
    have earlier := lt_of_startedAt? lt startedCall unstarted
    exact retains.outermost call (follows.outermost call kind earlier startedCall outer) outer

theorem Follows.decides_finish (follows : layout.Follows calls position)
    (found : calls[position]? = some .finish) :
    decides calls position =
      (layout.opened.head?.map fun frame => frame.kind.absorbsTrivia).getD false := by
  simp only [decides, found, ← follows.stack]
  cases opened : layout.opened with
  | nil => simp [Layout.stack, opened]
  | cons frame outer =>
      have started := follows.kinds frame (by simp [opened])
      simp [Layout.stack, opened, started]

theorem Follows.perform (follows : layout.Follows calls position)
    (found : calls[position]? = some call) :
    (layout.perform position call).Follows calls (position + 1) := by
  cases call with
  | start kind =>
      have decided : decides calls position = !kind.absorbsTrivia := by simp [decides, found]
      rw [Layout.perform]
      cases absorbs : kind.absorbsTrivia with
      | true =>
          rw [absorbs] at decided
          exact follows.enter found (.inr decided)
      | false =>
          rw [absorbs] at decided
          exact (follows.flush decided).enter found (.inl rfl)
  | token kind length =>
      rw [Layout.perform]
      cases trivia : kind.isTrivia with
      | true => exact follows.hold found trivia
      | false =>
          have decided : decides calls position = true := by simp [decides, found, trivia]
          exact (follows.flush decided).place (by simp [leafAt?, found, Call.leaf?]) decided rfl
  | reuse kind children =>
      have decided : decides calls position = true := by simp [decides, found]
      exact (follows.flush decided).place (by simp [leafAt?, found, Call.leaf?]) decided rfl
  | finish =>
      have finishes := follows.decides_finish found
      rw [Layout.perform, ← finishes]
      cases decided : decides calls position with
      | true => exact (follows.flush decided).close found (.inl rfl)
      | false => exact follows.close found (.inr decided)

/-- What any calls preserve. -/
theorem exists_follows {builder : Builder} :
    ∀ (rest before : List Call) (layout : Layout), calls = before ++ rest →
      layout.Follows calls before.length → performAll rest layout.erase = .ok builder →
        ∃ last : Layout, last.Follows calls calls.length ∧ last.erase = builder
  | [], before, layout, split, follows, carried => by
      rw [List.append_nil] at split
      subst split
      exact ⟨layout, follows, Except.ok.inj carried⟩
  | call :: rest, before, layout, split, follows, carried => by
      have found : calls[before.length]? = some call := by simp [split]
      rw [performAll] at carried
      cases step : layout.erase.perform call with
      | error reason => simp [step, Except.bind] at carried
      | ok next =>
          rw [step, ← erase_perform step before.length] at carried
          refine exists_follows rest (before ++ [call]) _ (by simp [split]) ?_ carried
          rw [List.length_append]
          exact follows.perform found

end Layout
end Builder
end Asm6502
