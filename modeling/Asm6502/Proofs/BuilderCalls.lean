import Asm6502.Tree.Builder
import Mathlib.Data.List.Range

/-!
# Calls of a builder

What the calls of a builder mean can be said without building anything.  Starts and
finishes are brackets, so which nodes are open in front of a call is known from the
calls before it.  A call decides where the trivia in front of it belong unless it
leaves them pending, and what is added settles in front of the first call from then on
that decides.
-/

namespace Asm6502
namespace Builder

/-- What a builder can be told. -/
inductive Call where
  | start (kind : Kind)
  | token (kind : Kind) (length : Nat)
  /-- Add a finished node. -/
  | reuse (kind : Kind) (children : List Tree)
  | finish
deriving DecidableEq, Repr

namespace Call

/-- What a call adds. -/
def leaf? : Call → Option Tree
  | .token kind length => some (.token kind length)
  | .reuse kind children => some (.node kind children)
  | _ => none

/-- The kind of the node that a call starts. -/
def started? : Call → Option Kind
  | .start kind => some kind
  | _ => none

end Call

def perform (call : Call) (builder : Builder) : Except BuildError Builder :=
  match call with
  | .start kind => .ok (builder.start kind)
  | .token kind length => .ok (builder.token kind length)
  | .reuse kind children => .ok (builder.reuse (.node kind children))
  | .finish => builder.finish

def performAll : List Call → Builder → Except BuildError Builder
  | [], builder => .ok builder
  | call :: rest, builder => (builder.perform call).bind (performAll rest)

def build (calls : List Call) : Except BuildError Tree :=
  (performAll calls {}).bind done

variable {calls : List Call} {call : Call} {position : Nat}

/-- The kind of the node that the call at a position starts. -/
def startedAt? (calls : List Call) (position : Nat) : Option Kind :=
  calls[position]?.bind Call.started?

/-- What the call at a position adds. -/
def leafAt? (calls : List Call) (position : Nat) : Option Tree :=
  calls[position]?.bind Call.leaf?

/-- Where the nodes were started that are open in front of a call, innermost first. -/
def openBefore (calls : List Call) : (position : Nat) → List Nat
  | 0 => []
  | position + 1 =>
      match calls[position]? with
      | some (.start _) => position :: openBefore calls position
      | some .finish => (openBefore calls position).tail
      | _ => openBefore calls position

theorem openBefore_start {kind : Kind} (here : calls[position]? = some (.start kind)) :
    openBefore calls (position + 1) = position :: openBefore calls position := by
  simp [openBefore, here]

theorem openBefore_finish (here : calls[position]? = some .finish) :
    openBefore calls (position + 1) = (openBefore calls position).tail := by
  simp [openBefore, here]

theorem openBefore_leaf {tree : Tree} (here : leafAt? calls position = some tree) :
    openBefore calls (position + 1) = openBefore calls position := by
  obtain ⟨call, found, leaf⟩ := Option.bind_eq_some_iff.mp here
  cases call with
  | token => simp [openBefore, found]
  | reuse => simp [openBefore, found]
  | start => simp [Call.leaf?] at leaf
  | finish => simp [Call.leaf?] at leaf

theorem startedAt?_eq_none_of_leafAt? {tree : Tree}
    (here : leafAt? calls position = some tree) : startedAt? calls position = none := by
  obtain ⟨call, found, leaf⟩ := Option.bind_eq_some_iff.mp here
  rw [startedAt?, found]
  cases call with
  | start => simp [Call.leaf?] at leaf
  | _ => rfl

theorem lt_of_startedAt? {earlier : Nat} {kind : Kind} (lt : earlier < position + 1)
    (started : startedAt? calls earlier = some kind)
    (unstarted : startedAt? calls position = none) : earlier < position := by
  rcases Nat.lt_succ_iff_lt_or_eq.mp lt with earlier | rfl
  · exact earlier
  · rw [unstarted] at started
    contradiction

/-- A call does not leave trivia pending: a node starts that does not absorb trivia, a
significant token or a finished node is added, or a node that absorbs trivia is
finished. -/
def decides (calls : List Call) (position : Nat) : Bool :=
  match calls[position]? with
  | some (.start kind) => !kind.absorbsTrivia
  | some (.token kind _) => !kind.isTrivia
  | some (.reuse _ _) => true
  | some .finish =>
      (((openBefore calls position).head?.bind (startedAt? calls)).map
        Kind.absorbsTrivia).getD false
  | none => false

/-- The call at a position is the first one that decides, from another one on. -/
structure Settles (calls : List Call) (position settling : Nat) : Prop where
  le : position ≤ settling
  decided : decides calls settling = true
  waits : ∀ between, position ≤ between → between < settling → decides calls between = false

theorem Settles.eq {settling other : Nat} (settles : Settles calls position settling)
    (also : Settles calls position other) : settling = other := by
  rcases Nat.lt_trichotomy settling other with lt | same | lt
  · have waits := also.waits settling settles.le lt
    rw [settles.decided] at waits
    contradiction
  · exact same
  · have waits := settles.waits other also.le lt
    rw [also.decided] at waits
    contradiction

/-- The node that was started at a position gets a child: something that is added
settles in it, or a node that gets a child is started in it. -/
inductive Receives (calls : List Call) : Nat → Prop
  | leaf {node position settling : Nat} {outer : List Nat} {tree : Tree} :
      leafAt? calls position = some tree → Settles calls position settling →
        openBefore calls settling = node :: outer → Receives calls node
  | node {node inner : Nat} {outer : List Nat} {kind : Kind} :
      startedAt? calls inner = some kind → openBefore calls inner = node :: outer →
        Receives calls inner → Receives calls node

/-- What the calls in front of a position add, in order. -/
def leavesBefore (calls : List Call) (position : Nat) : List (Nat × Tree) :=
  (List.range position).filterMap fun earlier =>
    (leafAt? calls earlier).map fun tree => (earlier, tree)

/-- Where nodes are started in front of a position, in order. -/
def startsBefore (calls : List Call) (position : Nat) : List Nat :=
  (List.range position).filter fun earlier => (startedAt? calls earlier).isSome

theorem leavesBefore_succ (calls : List Call) (position : Nat) :
    leavesBefore calls (position + 1) =
      leavesBefore calls position ++
        ((leafAt? calls position).map fun tree => (position, tree)).toList := by
  rw [leavesBefore, List.range_succ, List.filterMap_append, ← leavesBefore]
  cases leaf : leafAt? calls position <;> simp [leaf]

theorem startsBefore_succ_of_eq_none (other : startedAt? calls position = none) :
    startsBefore calls (position + 1) = startsBefore calls position := by
  simp [startsBefore, List.range_succ, other]

theorem startsBefore_succ_of_eq_some {kind : Kind}
    (started : startedAt? calls position = some kind) :
    startsBefore calls (position + 1) = startsBefore calls position ++ [position] := by
  simp [startsBefore, List.range_succ, started]

theorem pairwise_startsBefore (calls : List Call) (position : Nat) :
    (startsBefore calls position).Pairwise (· < ·) :=
  List.pairwise_lt_range.filter _

theorem mem_leavesBefore_iff {tree : Tree} {earlier : Nat} :
    (earlier, tree) ∈ leavesBefore calls position ↔
      earlier < position ∧ leafAt? calls earlier = some tree := by
  simp [leavesBefore, and_left_comm, and_comm]

theorem map_snd_leavesBefore (calls : List Call) :
    (leavesBefore calls calls.length).map Prod.snd = calls.filterMap Call.leaf? := by
  have upTo (position : Nat) : (leavesBefore calls position).map Prod.snd =
      (calls.take position).filterMap Call.leaf? := by
    induction position with
    | zero => rfl
    | succ position ih =>
        rw [leavesBefore_succ, List.map_append, ih, List.take_add_one, List.filterMap_append,
          leafAt?]
        cases calls[position]? with
        | none => rfl
        | some call => cases leaf : call.leaf? <;> simp [leaf]
  rw [upTo, List.take_length]

end Builder
end Asm6502
