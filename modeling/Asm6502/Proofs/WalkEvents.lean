import Asm6502.Proofs.TreePlaces
import Asm6502.Tree.Walk
import Mathlib.Data.List.Basic

/-!
# Events of walks

The walk through a node enters it, walks through its children one after the other and
leaves it.  Enters and leaves are therefore balanced, and a balanced part of a walk is
invisible to a skip that begins in front of it.

A walk can also be taken step by step by a walker, which keeps for every open node the
children that it has not yet been at.  What is left for it to report is a list of
events at every time, and it skips what the list says.
-/

namespace Asm6502

open Place (preorder among)

namespace Tree

mutual

/-- The tree and everything below it, parents before children. -/
def preorder : Tree → List Tree
  | .token kind length => [.token kind length]
  | .node kind children => .node kind children :: preorderAll children

def preorderAll : List Tree → List Tree
  | [] => []
  | tree :: rest => tree.preorder ++ preorderAll rest

end

end Tree

namespace Place

@[elab_as_elim]
theorem induct {motive : Place → Prop}
    (token : ∀ place : Place, place.isNode = false → motive place)
    (node : ∀ place : Place, place.isNode = true →
      (∀ child ∈ place.children, motive child) → motive place) (place : Place) :
    motive place := by
  obtain ⟨focus, above⟩ := place
  induction focus using Tree.induct generalizing above with
  | token kind length => exact token _ rfl
  | node kind trees ih =>
      refine node _ rfl fun child childIn => ?_
      exact ih child.focus (focus_mem_children childIn) child.above

theorem children_of_isToken {place : Place} (isToken : place.isNode = false) :
    place.children = [] := by
  obtain ⟨focus, above⟩ := place
  cases focus with
  | token => rfl
  | node => contradiction

theorem map_focus_flatMap {places : List Place}
    (each : ∀ place ∈ places, place.preorder.map focus = place.focus.preorder) :
    (places.flatMap preorder).map focus = Tree.preorderAll (places.map focus) := by
  induction places with
  | nil => rfl
  | cons place rest ih =>
      rw [List.flatMap_cons, List.map_append, each place (by simp),
        ih fun other member => each other (by simp [member])]
      rfl

theorem map_focus_preorder (place : Place) :
    place.preorder.map focus = place.focus.preorder := by
  induction place using induct with
  | token place isToken =>
      obtain ⟨focus, above⟩ := place
      cases focus with
      | token => rfl
      | node => contradiction
  | node place isNode ih =>
      have below := map_focus_flatMap ih
      rw [map_focus_children] at below
      rw [preorder_eq_cons, List.map_cons, below]
      obtain ⟨focus, above⟩ := place
      cases focus with
      | token => contradiction
      | node => rfl

end Place

namespace Walk

variable {place node top : Place} {events rest before after : Walk}

mutual

theorem through_append (outer : List Crumb) :
    ∀ (tree : Tree) (rest : Walk), through outer tree rest = through outer tree [] ++ rest
  | .token _ _, _ => rfl
  | .node kind trees, rest => by
      rw [through, through, throughAll_eq kind outer [] trees,
        throughAll_eq kind outer [] trees [_]]
      simp

theorem throughAll_eq (kind : Kind) (outer : List Crumb) (before : List Tree) :
    ∀ (trees : List Tree) (rest : Walk),
      throughAll kind outer before trees rest =
        (among kind outer before trees).flatMap ofPlace ++ rest
  | [], _ => rfl
  | tree :: after, rest => by
      rw [throughAll, among, List.flatMap_cons, List.append_assoc,
        through_append (⟨kind, before, after⟩ :: outer) tree,
        throughAll_eq kind outer (tree :: before) after rest]
      rfl

end

theorem ofPlace_of_isToken (isToken : place.isNode = false) : ofPlace place = [.token place] := by
  obtain ⟨focus, above⟩ := place
  cases focus with
  | token => rfl
  | node => contradiction

theorem ofPlace_of_isNode (isNode : place.isNode = true) :
    ofPlace place = .enter place :: (place.children.flatMap ofPlace ++ [.leave place]) := by
  obtain ⟨focus, above⟩ := place
  cases focus with
  | token => contradiction
  | node kind trees =>
      rw [ofPlace, through, throughAll_eq]
      rfl

/-- The places of the enters and the tokens of a walk. -/
def visited (events : Walk) : List Place :=
  (events.filter fun event => event.isEnter || event.isToken).map WalkEvent.place

theorem visited_append (first second : Walk) :
    visited (first ++ second) = visited first ++ visited second := by
  simp [visited]

theorem visited_flatMap {places : List Place}
    (each : ∀ place ∈ places, visited (ofPlace place) = place.preorder) :
    visited (places.flatMap ofPlace) = places.flatMap preorder := by
  induction places with
  | nil => rfl
  | cons place rest ih =>
      rw [List.flatMap_cons, visited_append, each place (by simp),
        ih fun other member => each other (by simp [member]), List.flatMap_cons]

theorem visited_ofPlace (place : Place) : visited (ofPlace place) = place.preorder := by
  induction place using Place.induct with
  | token place isToken =>
      rw [ofPlace_of_isToken isToken, Place.preorder_eq_cons,
        Place.children_of_isToken isToken]
      rfl
  | node place isNode ih =>
      have inside := visited_flatMap ih
      rw [ofPlace_of_isNode isNode, Place.preorder_eq_cons, ← inside]
      simp [visited, WalkEvent.isEnter, WalkEvent.isToken, WalkEvent.place]

/-- Every node that is entered is left again, and what is entered in between is left
before. -/
inductive Balanced : Walk → Prop
  | nil : Balanced []
  | token {leaf : Place} {rest : Walk} : Balanced rest → Balanced (.token leaf :: rest)
  | node {node : Place} {inside rest : Walk} :
      Balanced inside → Balanced rest →
        Balanced (.enter node :: (inside ++ .leave node :: rest))

theorem Balanced.append {first second : Walk} (balanced : Balanced first)
    (behind : Balanced second) : Balanced (first ++ second) := by
  induction balanced with
  | nil => exact behind
  | token _ ih => exact .token ih
  | node inside _ _ ih =>
      rw [List.cons_append, List.append_assoc, List.cons_append]
      exact .node inside ih

theorem balanced_flatMap {places : List Place}
    (each : ∀ place ∈ places, Balanced (ofPlace place)) :
    Balanced (places.flatMap ofPlace) := by
  induction places with
  | nil => exact .nil
  | cons place rest ih =>
      rw [List.flatMap_cons]
      exact (each place (by simp)).append (ih fun other member => each other (by simp [member]))

theorem balanced_ofPlace (place : Place) : Balanced (ofPlace place) := by
  induction place using Place.induct with
  | token place isToken =>
      rw [ofPlace_of_isToken isToken]
      exact .token .nil
  | node place isNode ih =>
      rw [ofPlace_of_isNode isNode]
      exact .node (balanced_flatMap ih) .nil

/-- A balanced part of a walk leaves no node that was entered in front of it. -/
theorem skipFrom_append (balanced : Balanced events) (depth : Nat) (rest : Walk) :
    skipFrom depth (events ++ rest) = skipFrom depth rest := by
  induction balanced generalizing depth rest with
  | nil => rfl
  | token _ ih =>
      rw [List.cons_append, skipFrom]
      exact ih depth rest
  | node _ _ inside behind =>
      rw [List.cons_append, skipFrom, List.append_assoc, inside, List.cons_append, skipFrom]
      exact behind depth rest

theorem skip?_children (node : Place) (after : Walk) :
    skip? (node.children.flatMap ofPlace ++ .leave node :: after) = some after := by
  rw [skip?, skipFrom_append (balanced_flatMap fun child _ => balanced_ofPlace child)]
  rfl

/-- Behind every enter there are the events of the rest of its node, its leave last. -/
def Complete (events : Walk) : Prop :=
  ∀ before node rest, events = before ++ .enter node :: rest →
    ∃ after, rest = node.children.flatMap ofPlace ++ .leave node :: after

theorem Complete.append {first second : Walk} (complete : Complete first)
    (behind : Complete second) : Complete (first ++ second) := by
  intro before node rest split
  -- The enter stands in the second part, or in the first with some of it behind.
  rcases List.append_eq_append_iff.mp split with ⟨between, rfl, later⟩ | ⟨inside, here, later⟩
  · exact behind between node rest later
  · cases inside with
    | nil => exact behind [] node rest later.symm
    | cons event inside =>
        rw [List.cons_append, List.cons.injEq] at later
        obtain ⟨rfl, rfl⟩ := later
        obtain ⟨after, rfl⟩ := complete before node inside here
        exact ⟨after ++ second, by simp⟩

theorem complete_flatMap {places : List Place}
    (each : ∀ place ∈ places, Complete (ofPlace place)) :
    Complete (places.flatMap ofPlace) := by
  induction places with
  | nil =>
      intro before node rest split
      simp at split
  | cons place rest ih =>
      rw [List.flatMap_cons]
      exact (each place (by simp)).append (ih fun other member => each other (by simp [member]))

theorem complete_ofPlace (place : Place) : Complete (ofPlace place) := by
  induction place using Place.induct with
  | token place isToken =>
      rw [ofPlace_of_isToken isToken]
      intro before node rest split
      cases before <;> simp at split
  | node place isNode ih =>
      rw [ofPlace_of_isNode isNode]
      intro before node rest split
      cases before with
      | nil =>
          rw [List.nil_append, List.cons.injEq, WalkEvent.enter.injEq] at split
          obtain ⟨rfl, rfl⟩ := split
          exact ⟨[], rfl⟩
      | cons event before =>
          have leaves : Complete [.leave place] := by
            intro before node rest split
            cases before <;> simp at split
          rw [List.cons_append, List.cons.injEq] at split
          exact ((complete_flatMap ih).append leaves) before node rest split.2

/-- What is reported of the walk through a place if some nodes are skipped once they
have been entered. -/
inductive Reports (skips : WalkEvent → Bool) : Place → Walk → Prop
  | token {place : Place} :
      place.isNode = false → Reports skips place [.token place]
  | skipped {place : Place} :
      place.isNode = true → skips (.enter place) = true → Reports skips place [.enter place]
  | entered {place : Place} {parts : List Walk} :
      place.isNode = true → skips (.enter place) = false →
        List.Forall₂ (Reports skips) place.children parts →
          Reports skips place (.enter place :: (parts.flatten ++ [.leave place]))

/-- Only enters are skipped behind. -/
def OnlyEnters (skips : WalkEvent → Bool) : Prop :=
  ∀ event, skips event = true → event.isEnter = true

theorem reported_cons (skips : WalkEvent → Bool) (event : WalkEvent) (rest : Walk) :
    reported skips (event :: rest) = event :: reported skips (behind skips event rest) := by
  rw [reported]

theorem reported_cons_of_not_isEnter {skips : WalkEvent → Bool} (only : OnlyEnters skips)
    {event : WalkEvent} (other : event.isEnter = false) (rest : Walk) :
    reported skips (event :: rest) = event :: reported skips rest := by
  have passes : skips event = false := by
    rw [Bool.eq_false_iff]
    intro skipped
    rw [only event skipped] at other
    contradiction
  rw [reported_cons, behind, passes]
  rfl

theorem exists_parts {skips : WalkEvent → Bool} {places : List Place}
    (each : ∀ place ∈ places, ∃ events, Reports skips place events ∧
      ∀ rest, reported skips (ofPlace place ++ rest) = events ++ reported skips rest) :
    ∃ parts, List.Forall₂ (Reports skips) places parts ∧
      ∀ rest, reported skips (places.flatMap ofPlace ++ rest) =
        parts.flatten ++ reported skips rest := by
  induction places with
  | nil => exact ⟨[], .nil, fun _ => rfl⟩
  | cons place places ih =>
      obtain ⟨events, here, first⟩ := each place (by simp)
      obtain ⟨parts, others, later⟩ := ih fun other member => each other (by simp [member])
      refine ⟨events :: parts, .cons here others, fun rest => ?_⟩
      rw [List.flatMap_cons, List.append_assoc, first, later, List.flatten_cons,
        List.append_assoc]

-- Skipping looks for the leave in all that is left, so the induction has a rest behind
-- the place.
theorem exists_reports {skips : WalkEvent → Bool} (only : OnlyEnters skips) (place : Place) :
    ∃ events, Reports skips place events ∧
      ∀ rest, reported skips (ofPlace place ++ rest) = events ++ reported skips rest := by
  induction place using Place.induct with
  | token place isToken =>
      refine ⟨_, .token isToken, fun rest => ?_⟩
      rw [ofPlace_of_isToken isToken]
      exact reported_cons_of_not_isEnter only rfl rest
  | node place isNode ih =>
      cases skipped : skips (.enter place) with
      | true =>
          refine ⟨_, .skipped isNode skipped, fun rest => ?_⟩
          rw [ofPlace_of_isNode isNode, List.cons_append, List.append_assoc,
            List.singleton_append, reported_cons, behind, skipped, skip?_children]
          rfl
      | false =>
          obtain ⟨parts, inside, each⟩ := exists_parts ih
          refine ⟨_, .entered isNode skipped inside, fun rest => ?_⟩
          rw [ofPlace_of_isNode isNode, List.cons_append, List.append_assoc,
            List.singleton_append, reported_cons, behind, skipped]
          simp only [Bool.false_eq_true, if_false, each,
            reported_cons_of_not_isEnter only (rfl : (WalkEvent.leave place).isEnter = false)]
          simp

/-- A walk that skips nodes it has entered reports nothing else of these, and of the
other places what it reports without skipping. -/
theorem reports_reported {skips : WalkEvent → Bool} (only : OnlyEnters skips) (place : Place) :
    Reports skips place (reported skips (ofPlace place)) := by
  obtain ⟨events, reports, all⟩ := exists_reports only place
  have whole := all []
  rw [List.append_nil, reported, List.append_nil] at whole
  rwa [whole]

end Walk

/-- A walk that is taken step by step. -/
structure Walker where
  /-- The open nodes, innermost first, each with the children that come next. -/
  opened : List (Place × List Place)
  /-- The node to begin with, until it has been entered. -/
  root? : Option {place : Place // place.isNode = true}

namespace Walker

/-- Before the walk through a node. -/
def begin (root : {place : Place // place.isNode = true}) : Walker :=
  ⟨[], some root⟩

def next? : Walker → Option (WalkEvent × Walker)
  | ⟨[], none⟩ => none
  | ⟨[], some root⟩ => some (.enter root.1, ⟨[(root.1, root.1.children)], none⟩)
  | ⟨(node, []) :: outer, root?⟩ => some (.leave node, ⟨outer, root?⟩)
  | ⟨(node, child :: rest) :: outer, root?⟩ =>
      if child.isNode then
        some (.enter child, ⟨(child, child.children) :: (node, rest) :: outer, root?⟩)
      else some (.token child, ⟨(node, rest) :: outer, root?⟩)

def skip? : Walker → Option Walker
  | ⟨[], _⟩ => none
  | ⟨_ :: outer, root?⟩ => some ⟨outer, root?⟩

/-- The events that are left in open nodes. -/
def leftIn : List (Place × List Place) → Walk
  | [] => []
  | (node, rest) :: outer => rest.flatMap Walk.ofPlace ++ .leave node :: leftIn outer

def left (walker : Walker) : Walk :=
  leftIn walker.opened ++ (walker.root?.map fun root => Walk.ofPlace root.1).getD []

/-- A walker reports the first of the events that are left, and the others are left
then. -/
theorem map_left_next? (walker : Walker) :
    walker.next?.map (Prod.map id left) = walker.left.next? := by
  obtain ⟨_ | ⟨⟨node, _ | ⟨child, rest⟩⟩, outer⟩, root?⟩ := walker
  · cases root? with
    | none => rfl
    | some root =>
        obtain ⟨root, isNode⟩ := root
        simp [next?, left, leftIn, Walk.ofPlace_of_isNode isNode, List.next?]
  · rfl
  · cases isNode : child.isNode with
    | true => simp [next?, left, leftIn, isNode, Walk.ofPlace_of_isNode isNode, List.next?]
    | false => simp [next?, left, leftIn, isNode, Walk.ofPlace_of_isToken isNode, List.next?]

theorem map_left_skip? (walker : Walker) : walker.skip?.map left = Walk.skip? walker.left := by
  obtain ⟨_ | ⟨⟨node, rest⟩, outer⟩, root?⟩ := walker
  · cases root? with
    | none => rfl
    | some root =>
        have balanced := Walk.skipFrom_append (Walk.balanced_ofPlace root.1) 0 []
        rw [List.append_nil] at balanced
        simp [skip?, left, leftIn, Walk.skip?, balanced, Walk.skipFrom]
  · have inside : Walk.Balanced (rest.flatMap Walk.ofPlace) :=
      Walk.balanced_flatMap fun child _ => Walk.balanced_ofPlace child
    simp only [skip?, left, leftIn, Option.map_some, Walk.skip?, List.append_assoc,
      Walk.skipFrom_append inside, List.cons_append, Walk.skipFrom]

theorem skip?_of_next?_enter {walker behind : Walker} {node : Place}
    (entered : walker.next? = some (.enter node, behind)) :
    ∃ skipped, behind.skip? = some skipped ∧
      behind.left = node.children.flatMap Walk.ofPlace ++ .leave node :: skipped.left := by
  obtain ⟨_ | ⟨⟨outermost, _ | ⟨child, rest⟩⟩, outer⟩, root?⟩ := walker
  · cases root? with
    | none => simp [next?] at entered
    | some root =>
        simp only [next?, Option.some.injEq, Prod.mk.injEq, WalkEvent.enter.injEq] at entered
        obtain ⟨rfl, rfl⟩ := entered
        exact ⟨_, rfl, by simp [left, leftIn]⟩
  · simp [next?] at entered
  · cases isNode : child.isNode with
    | true =>
        simp only [next?, isNode, if_true, Option.some.injEq, Prod.mk.injEq,
          WalkEvent.enter.injEq] at entered
        obtain ⟨rfl, rfl⟩ := entered
        exact ⟨_, rfl, by simp [left, leftIn]⟩
    | false => simp [next?, isNode] at entered

/-- What a walker reports until it has come to the end. -/
inductive Reports : Walker → Walk → Prop
  | done {walker : Walker} : walker.next? = none → Reports walker []
  | next {walker behind : Walker} {event : WalkEvent} {rest : Walk} :
      walker.next? = some (event, behind) → Reports behind rest → Reports walker (event :: rest)

/-- A walker comes to the end, and reports on the way what is left. -/
theorem reports_left (walker : Walker) : walker.Reports walker.left := by
  induction events : walker.left generalizing walker with
  | nil =>
      have step := map_left_next? walker
      rw [events, List.next?, Option.map_eq_none_iff] at step
      exact .done step
  | cons event rest ih =>
      have step := map_left_next? walker
      rw [events, List.next?, Option.map_eq_some_iff] at step
      obtain ⟨⟨first, behind⟩, next, same⟩ := step
      simp only [Prod.map, id, Prod.mk.injEq] at same
      obtain ⟨rfl, others⟩ := same
      exact .next next (ih behind others)

theorem reports_begin (root : {place : Place // place.isNode = true}) :
    (begin root).Reports (Walk.ofPlace root.1) :=
  reports_left (begin root)

/-- A walker reports nothing else than what is left. -/
theorem Reports.eq_left {walker : Walker} {events : Walk} (reports : walker.Reports events) :
    events = walker.left := by
  induction reports with
  | @done walker stopped =>
      have step := map_left_next? walker
      rw [stopped, Option.map_none] at step
      cases left : walker.left with
      | nil => rfl
      | cons event rest => simp [left, List.next?] at step
  | @next walker behind event rest next _ ih =>
      have step := map_left_next? walker
      rw [next, Option.map_some] at step
      cases left : walker.left with
      | nil => simp [left, List.next?] at step
      | cons first others =>
          simp only [left, List.next?, Option.some.injEq, Prod.map, id, Prod.mk.injEq] at step
          rw [ih, step.1, step.2]

/-- A walker that has just entered a node skips the events of the node's children and
its leave, and nothing else. -/
theorem Reports.skip?_of_enter {walker behind : Walker} {node : Place} {events : Walk}
    (entered : walker.next? = some (.enter node, behind)) (reports : behind.Reports events) :
    ∃ skipped rest, behind.skip? = some skipped ∧ skipped.Reports rest ∧
      events = node.children.flatMap Walk.ofPlace ++ .leave node :: rest := by
  obtain ⟨skipped, skips, left⟩ := skip?_of_next?_enter entered
  exact ⟨skipped, skipped.left, skips, reports_left skipped, reports.eq_left.trans left⟩

/-- Wherever a walker is, it can skip if its list of events can, and reports then what
the list says. -/
theorem Reports.skip?_eq_some_iff {walker : Walker} {events rest : Walk}
    (reports : walker.Reports events) :
    Walk.skip? events = some rest ↔
      ∃ skipped, walker.skip? = some skipped ∧ skipped.Reports rest := by
  rw [reports.eq_left, ← map_left_skip?, Option.map_eq_some_iff]
  constructor
  · rintro ⟨skipped, skips, rfl⟩
    exact ⟨skipped, skips, reports_left skipped⟩
  · rintro ⟨skipped, skips, reports⟩
    exact ⟨skipped, skips, reports.eq_left.symm⟩

end Walker
end Asm6502
