import Asm6502.Proofs.BuilderPlans
import Asm6502.Proofs.EventLogs
import Mathlib.Data.List.Induction

/-!
# Scaffolds

A scaffold is the tree that operations build directly: a node is opened in the innermost
open one, or around the child that was added last, and when it is finished it becomes a
child itself.  Nothing is left out, so the calls of a builder can be read off.  A sketch
does the same and leaves out the nodes that stay without children.
-/

namespace Asm6502

open Builder (Call Plan Part)

namespace Builder

def Call.adding : Tree → Call
  | .token kind length => .token kind length
  | .node kind children => .reuse kind children

def Call.isToken : Call → Bool
  | .token _ _ => true
  | _ => false

namespace Plan

def call : Plan → Nat
  | .leaf call _ => call
  | .node call _ _ => call

mutual

def calls : Plan → List Call
  | .leaf _ tree => [.adding tree]
  | .node _ kind children => .start kind :: callsOfAll children ++ [.finish]

def callsOfAll : List Plan → List Call
  | [] => []
  | plan :: rest => plan.calls ++ callsOfAll rest

end

@[simp]
theorem callsOfAll_append (first second : List Plan) :
    callsOfAll (first ++ second) = callsOfAll first ++ callsOfAll second := by
  induction first with
  | nil => rfl
  | cons plan rest ih => rw [List.cons_append, callsOfAll, ih, callsOfAll, List.append_assoc]

theorem callsOfAll_reverse_cons (plan : Plan) (earlier : List Plan) :
    callsOfAll (plan :: earlier).reverse = callsOfAll earlier.reverse ++ plan.calls := by
  rw [List.reverse_cons, callsOfAll_append, callsOfAll, callsOfAll, List.append_nil]

mutual

/-- The tree of a plan without the nodes that stay without children. -/
def kept? : Plan → Option Tree
  | .leaf _ tree => some tree
  | .node _ kind children =>
      match keptOfAll children with
      | [] => none
      | trees => some (.node kind trees)

def keptOfAll : List Plan → List Tree
  | [] => []
  | plan :: rest => plan.kept?.toList ++ keptOfAll rest

end

theorem keptOfAll_eq_filterMap (plans : List Plan) : keptOfAll plans = plans.filterMap kept? := by
  induction plans with
  | nil => rfl
  | cons plan rest ih =>
      rw [keptOfAll, List.filterMap_cons, ih]
      cases plan.kept? <;> rfl

end Plan
end Builder

namespace Log

def Operation.carryOut {σ : Type} (step : Nat → Operation → σ → σ) :
    (position : Nat) → List Operation → σ → σ
  | _, [], state => state
  | position, operation :: rest, state =>
      carryOut step (position + 1) rest (step position operation state)

theorem Operation.carryOut_append {σ : Type} (step : Nat → Operation → σ → σ)
    (first second : List Operation) (position : Nat) (state : σ) :
    carryOut step position (first ++ second) state =
      carryOut step (position + first.length) second (carryOut step position first state) := by
  induction first generalizing position state with
  | nil => rfl
  | cons operation rest ih =>
      rw [List.cons_append, carryOut, ih, carryOut, List.length_cons, Nat.add_assoc,
        Nat.add_comm 1]

/-- A tree under construction. -/
structure Scaffold where
  /-- What stands outside of every open node, latest first. -/
  settled : List Plan := []
  /-- The open nodes, innermost first, each with its children, latest first. -/
  opened : List (Nat × List Plan) := []

namespace Scaffold

/-- Where the open nodes were opened, innermost first. -/
def markers (scaffold : Scaffold) : List Nat :=
  scaffold.opened.map Prod.fst

def add (plan : Plan) (scaffold : Scaffold) : Scaffold :=
  match scaffold.opened with
  | [] => { scaffold with settled := plan :: scaffold.settled }
  | (call, children) :: outer =>
      { scaffold with opened := (call, plan :: children) :: outer }

def enter (call : Nat) (scaffold : Scaffold) : Scaffold :=
  { scaffold with opened := (call, []) :: scaffold.opened }

/-- Open a node around the child that was added last. -/
def wrap (call : Nat) (scaffold : Scaffold) : Scaffold :=
  match scaffold.opened with
  | [] =>
      { settled := scaffold.settled.drop 1
        opened := [(call, scaffold.settled.take 1)] }
  | (outerCall, children) :: outer =>
      { scaffold with
        opened := (call, children.take 1) :: (outerCall, children.drop 1) :: outer }

def close (kind : Kind) (scaffold : Scaffold) : Scaffold :=
  match scaffold.opened with
  | [] => scaffold
  | (call, children) :: outer =>
      { scaffold with opened := outer }.add (.node call kind children.reverse)

def perform (position : Nat) (operation : Operation) (scaffold : Scaffold) : Scaffold :=
  match operation with
  | .add tree => scaffold.add (.leaf position tree)
  | .start => scaffold.enter position
  | .complete _ kind => scaffold.close kind
  | .precede _ => scaffold.wrap position

def ofOperations (operations : List Operation) : Scaffold :=
  Operation.carryOut perform 0 operations {}

theorem ofOperations_concat (operations : List Operation) (operation : Operation) :
    ofOperations (operations ++ [operation]) =
      (ofOperations operations).perform operations.length operation := by
  rw [ofOperations, Operation.carryOut_append, Nat.zero_add]
  rfl

theorem wrap_add (call : Nat) (plan : Plan) (scaffold : Scaffold) :
    (scaffold.add plan).wrap call =
      { scaffold with opened := (call, [plan]) :: scaffold.opened } := by
  obtain ⟨settled, _ | ⟨⟨outerCall, children⟩, outer⟩⟩ := scaffold <;> rfl

@[simp]
theorem markers_add (plan : Plan) (scaffold : Scaffold) :
    (scaffold.add plan).markers = scaffold.markers := by
  obtain ⟨settled, _ | ⟨⟨call, children⟩, outer⟩⟩ := scaffold <;> rfl

@[simp]
theorem markers_enter (call : Nat) (scaffold : Scaffold) :
    (scaffold.enter call).markers = call :: scaffold.markers :=
  rfl

@[simp]
theorem markers_wrap (call : Nat) (scaffold : Scaffold) :
    (scaffold.wrap call).markers = call :: scaffold.markers := by
  obtain ⟨settled, _ | ⟨⟨outerCall, children⟩, outer⟩⟩ := scaffold <;> rfl

@[simp]
theorem markers_close (kind : Kind) (scaffold : Scaffold) :
    (scaffold.close kind).markers = scaffold.markers.tail := by
  obtain ⟨settled, _ | ⟨⟨call, children⟩, outer⟩⟩ := scaffold
  · rfl
  · exact markers_add _ _

/-- What a sketch does about the operation at a position. -/
def sketchStep (position : Nat) (operation : Operation) (sketch : Sketch Nat) : Sketch Nat :=
  match operation with
  | .add tree => sketch.add tree
  | .start => sketch.enter position
  | .complete _ kind => sketch.leave kind
  | .precede _ => sketch.wrap position

/-- A scaffold that has forgotten the calls and the finished nodes without children. -/
def erase (scaffold : Scaffold) : Sketch Nat where
  settled := scaffold.settled.filterMap Plan.kept?
  opened := scaffold.opened.map fun (call, children) => (call, children.filterMap Plan.kept?)

def latest? (scaffold : Scaffold) : Option Plan :=
  match scaffold.opened with
  | [] => scaffold.settled.head?
  | (_, children) :: _ => children.head?

theorem erase_add_of_kept {plan : Plan} {tree : Tree} (kept : plan.kept? = some tree)
    (scaffold : Scaffold) : (scaffold.add plan).erase = scaffold.erase.add tree := by
  obtain ⟨settled, _ | ⟨⟨call, children⟩, outer⟩⟩ := scaffold <;>
    simp [add, erase, Sketch.add, kept]

theorem erase_add_of_not_kept {plan : Plan} (dropped : plan.kept? = none)
    (scaffold : Scaffold) : (scaffold.add plan).erase = scaffold.erase := by
  obtain ⟨settled, _ | ⟨⟨call, children⟩, outer⟩⟩ := scaffold <;>
    simp [add, erase, dropped]

theorem erase_close (kind : Kind) (scaffold : Scaffold) :
    (scaffold.close kind).erase = scaffold.erase.leave kind := by
  obtain ⟨settled, _ | ⟨⟨call, children⟩, outer⟩⟩ := scaffold
  · rfl
  · have trees : Plan.keptOfAll children.reverse = (children.filterMap Plan.kept?).reverse := by
      rw [Plan.keptOfAll_eq_filterMap, List.filterMap_reverse]
    rw [close]
    cases kept : children.filterMap Plan.kept? with
    | nil =>
        have dropped : Plan.kept? (.node call kind children.reverse) = none := by
          rw [Plan.kept?, trees, kept]
          rfl
        rw [erase_add_of_not_kept dropped]
        simp [erase, Sketch.leave, kept]
    | cons tree rest =>
        have built : Plan.kept? (.node call kind children.reverse) =
            some (.node kind (tree :: rest).reverse) := by
          rw [Plan.kept?, trees, kept]
          simp
        rw [erase_add_of_kept built]
        simp [erase, Sketch.leave, kept]

/-- A node is opened around the same tree, if there is something in it. -/
theorem erase_wrap {scaffold : Scaffold} (kept : (scaffold.latest?.bind Plan.kept?).isSome)
    (call : Nat) : (scaffold.wrap call).erase = scaffold.erase.wrap call := by
  have regroup {plans : List Plan} (kept : (plans.head?.bind Plan.kept?).isSome) :
      (plans.take 1).filterMap Plan.kept? = (plans.filterMap Plan.kept?).take 1 ∧
        (plans.drop 1).filterMap Plan.kept? = (plans.filterMap Plan.kept?).drop 1 := by
    cases plans with
    | nil => exact ⟨rfl, rfl⟩
    | cons plan rest =>
        obtain ⟨tree, built⟩ := Option.isSome_iff_exists.mp kept
        have built : plan.kept? = some tree := built
        simp [built]
  obtain ⟨settled, _ | ⟨⟨outerCall, children⟩, outer⟩⟩ := scaffold
  · obtain ⟨taken, rest⟩ := regroup kept
    simp only [wrap, erase, Sketch.wrap, List.map_cons, List.map_nil, taken, rest]
  · obtain ⟨taken, rest⟩ := regroup kept
    simp only [wrap, erase, Sketch.wrap, List.map_cons, taken, rest]

/-- A node is opened only around one with something in it. -/
def Solid (operations : List Operation) : Prop :=
  ∀ before completed, before ++ [.precede completed] <+: operations →
    ((ofOperations before).latest?.bind Plan.kept?).isSome

theorem Solid.sketched {operations : List Operation} (solid : Solid operations) :
    Operation.carryOut sketchStep 0 operations {} = (ofOperations operations).erase := by
  induction operations using List.reverseRecOn with
  | nil => rfl
  | append_singleton before operation ih =>
      have earlier := ih fun front completed stands =>
        solid front completed (stands.trans (List.prefix_append _ _))
      rw [ofOperations_concat, Operation.carryOut_append, earlier, Nat.zero_add]
      cases operation with
      | add tree => exact (erase_add_of_kept rfl _).symm
      | start => rfl
      | complete marker kind => exact (erase_close kind _).symm
      | precede completed =>
          exact (erase_wrap (solid before completed (List.prefix_refl _)) _).symm

end Scaffold
end Log
end Asm6502
