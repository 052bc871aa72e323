import Asm6502.Tree.Place

/-!
# Walks

A walk enters and leaves every node below a place and visits the tokens in
between.  What is left of a walk is the list of events still to come, and
skipping drops the rest of the node that was entered last.
-/

namespace Asm6502

/-- One event of a walk. -/
inductive WalkEvent where
  | enter (node : Place)
  | leave (node : Place)
  | token (leaf : Place)
deriving DecidableEq, Repr

namespace WalkEvent

def place : WalkEvent → Place
  | .enter node => node
  | .leave node => node
  | .token leaf => leaf

def isEnter : WalkEvent → Bool
  | .enter _ => true
  | _ => false

def isToken : WalkEvent → Bool
  | .token _ => true
  | _ => false

end WalkEvent

/-- The events of a walk that are still to come. -/
abbrev Walk := List WalkEvent

namespace Walk

mutual

/-- The walk through a tree in the given surroundings, in front of further
events. -/
def through (outer : List Crumb) : Tree → (rest : Walk) → Walk
  | .token kind length, rest => .token ⟨.token kind length, outer⟩ :: rest
  | .node kind trees, rest =>
      .enter ⟨.node kind trees, outer⟩ ::
        throughAll kind outer [] trees (.leave ⟨.node kind trees, outer⟩ :: rest)

def throughAll (kind : Kind) (outer : List Crumb) :
    (before : List Tree) → List Tree → (rest : Walk) → Walk
  | _, [], rest => rest
  | before, tree :: after, rest =>
      through (⟨kind, before, after⟩ :: outer) tree
        (throughAll kind outer (tree :: before) after rest)

end

def ofPlace (place : Place) : Walk :=
  through place.above place.focus []

/-- The events behind the first leave that no enter among them belongs to;
`depth` nodes have been entered before. -/
def skipFrom : (depth : Nat) → Walk → Option Walk
  | _, [] => none
  | depth, .enter _ :: rest => skipFrom (depth + 1) rest
  | 0, .leave _ :: rest => some rest
  | depth + 1, .leave _ :: rest => skipFrom depth rest
  | depth, .token _ :: rest => skipFrom depth rest

/-- Drop the rest of the node that was entered last, its leave included.  There
is no such node before the walk has begun. -/
def skip? (walk : Walk) : Option Walk :=
  skipFrom 0 walk

theorem length_le_of_skipFrom {depth : Nat} {walk rest : Walk}
    (skipped : skipFrom depth walk = some rest) :
    rest.length ≤ walk.length := by
  induction walk generalizing depth with
  | nil => simp [skipFrom] at skipped
  | cons event walk ih =>
      cases event with
      | enter node => exact Nat.le_succ_of_le (ih skipped)
      | token leaf => exact Nat.le_succ_of_le (ih skipped)
      | leave node =>
          cases depth with
          | zero =>
              simp only [skipFrom, Option.some.injEq] at skipped
              simp [skipped]
          | succ depth => exact Nat.le_succ_of_le (ih skipped)

/-- What is left of a walk behind an event, skipping if `skips` accepts it. -/
def behind (skips : WalkEvent → Bool) (event : WalkEvent) (rest : Walk) :
    Walk :=
  if skips event then (skip? rest).getD [] else rest

theorem length_behind_le (skips : WalkEvent → Bool) (event : WalkEvent)
    (rest : Walk) : (behind skips event rest).length ≤ rest.length := by
  unfold behind
  split
  · cases skipped : skip? rest with
    | none => simp
    | some left => exact length_le_of_skipFrom skipped
  · exact Nat.le_refl _

/-- The events that are reported when the walk skips right behind every event
that `skips` accepts. -/
def reported (skips : WalkEvent → Bool) : Walk → List WalkEvent
  | [] => []
  | event :: rest => event :: reported skips (behind skips event rest)
termination_by walk => walk.length
decreasing_by exact Nat.lt_succ_of_le (length_behind_le skips event rest)

def nodeEvents (events : List WalkEvent) : List WalkEvent :=
  events.filter fun event => !event.isToken

end Walk
end Asm6502
