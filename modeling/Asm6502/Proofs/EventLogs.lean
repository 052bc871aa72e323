import Asm6502.Proofs.BuilderCalls
import Asm6502.Tree.Step

/-!
# Event logs

Whoever reads a text need not build its tree at once, but can take down what happens in a
log: that nodes start and finish, and what is added to them.  The kind of a node is filled
in when it is finished.  A node that is opened around a finished one starts further on in
the log, and a link leads there from the earlier start.  Resolving a log gives the calls
of a builder: at the first start of a chain of links all nodes of the chain are started,
the outermost one first, and they are taken out so that none is started again.

A log is resolved event by event, and what is left of it behind the events that have been
visited decides all the rest.
-/

namespace Asm6502
namespace Log

open Builder (Call)

/-- What a log holds. -/
inductive Event where
  /-- A node starts.  The link tells how many events further on the node starts that was
  opened around it. -/
  | start (kind : Kind) (link? : Option Nat)
  | token (kind : Kind) (length : Nat)
  | finish
  /-- A finished node of an earlier tree. -/
  | reused (kind : Kind) (children : List Tree)
deriving DecidableEq, Repr

/-- A start that stands for no node: its kind has not been filled in yet, or it has been
taken out. -/
def Event.tombstone : Event := .start .tombstone none

def Event.adding : Tree → Event
  | .token kind length => .token kind length
  | .node kind children => .reused kind children

end Log

abbrev Log := List Log.Event

namespace Log

open Builder (Call)

/-- What can be taken down.  Every operation adds one event, and a node goes by the
position of its start. -/
inductive Operation where
  /-- Add a token or a finished node. -/
  | add (tree : Tree)
  /-- Open a node. -/
  | start
  /-- Finish the open node that starts at a position, and fill in its kind. -/
  | complete (marker : Nat) (kind : Kind)
  /-- Open a node around the finished one that starts at a position. -/
  | precede (completed : Nat)
deriving DecidableEq, Repr

namespace Operation

def addsToken : Operation → Bool
  | .add (.token _ _) => true
  | _ => false

/-- A node is opened. -/
def opens : Operation → Bool
  | .start | .precede _ => true
  | _ => false

/-- Positions are kept in 32 bits. -/
def narrowed : Operation → Operation
  | .complete marker kind => .complete (marker % 4294967296) kind
  | .precede completed => .precede (completed % 4294967296)
  | operation => operation

/-- The step without the position of the node that is meant. -/
def step : Operation → Step
  | .add tree => .add tree
  | .start => .start
  | .complete _ kind => .complete kind
  | .precede _ => .precede

end Operation

/-- Take an operation down; none if a node is meant that does not start where it should. -/
def perform (operation : Operation) (log : Log) : Option Log :=
  match operation with
  | .add tree => some (log ++ [.adding tree])
  | .start => some (log ++ [.tombstone])
  | .complete marker kind =>
      match log[marker]? with
      | some (.start _ link?) => some (log.set marker (.start kind link?) ++ [.finish])
      | _ => none
  | .precede completed =>
      let opened := log ++ [Event.tombstone]
      match opened[completed]? with
      | some (.start kind _) =>
          some (opened.set completed (.start kind (some (log.length - completed))))
      | _ => none

def performAll (operations : List Operation) (log : Log) : Option Log :=
  operations.foldlM (fun log operation => perform operation log) log

def record (operations : List Operation) : Option Log :=
  performAll operations []

/-- Operations are disciplined: of the open nodes, whose starts are listed innermost first,
always the innermost one is finished, with any kind but the reserved one, and a node is
opened around another one only right behind the operation that finished that one, which is
the last one. -/
inductive Disciplined : List Operation → (opened : List Nat) → (last? : Option Nat) → Prop
  | nil : Disciplined [] [] none
  | add {operations : List Operation} {opened : List Nat} {last? : Option Nat} {tree : Tree} :
      Disciplined operations opened last? → Disciplined (operations ++ [.add tree]) opened none
  | start {operations : List Operation} {opened : List Nat} {last? : Option Nat} :
      Disciplined operations opened last? →
        Disciplined (operations ++ [.start]) (operations.length :: opened) none
  | complete {operations : List Operation} {opened : List Nat} {last? : Option Nat}
      {marker : Nat} {kind : Kind} :
      Disciplined operations (marker :: opened) last? → kind ≠ .tombstone →
        Disciplined (operations ++ [.complete marker kind]) opened (some marker)
  | precede {operations : List Operation} {opened : List Nat} {completed : Nat} :
      Disciplined operations opened (some completed) →
        Disciplined (operations ++ [.precede completed]) (operations.length :: opened) none

/-- Follow links from a position on.  The nodes that start there, the innermost one first,
are taken out of the log; none if a link does not lead to a start. -/
def follow (log : Log) (position : Nat) (link? : Option Nat) : Option (List Kind × Log) :=
  match link? with
  -- A start with a link to itself has already been taken out.
  | none | some 0 => some ([], log)
  | some (distance + 1) =>
      let next := position + (distance + 1)
      if inside : next < log.length then
        match log[next] with
        | .start kind link? =>
            (follow (log.set next .tombstone) next link?).map fun (kinds, log) =>
              (if kind = .tombstone then kinds else kind :: kinds, log)
        | _ => none
      else none
termination_by log.length - position
decreasing_by
  rw [List.length_set]
  omega

/-- A log that is being resolved. -/
structure Resolution where
  log : Log
  /-- The calls so far. -/
  calls : List Call
  /-- How many tokens were taken down, apart from those in reused nodes. -/
  freshTokens : Nat

/-- Visit the event at a position and take it out. -/
def Resolution.visit (resolution : Resolution) (position : Nat) : Option Resolution :=
  let left := resolution.log.set position .tombstone
  match resolution.log[position]? with
  | some (.start kind link?) =>
      if kind = .tombstone then some { resolution with log := left }
      else
        (follow left position link?).map fun (kinds, left) =>
          { resolution with
            log := left
            calls := resolution.calls ++ (kind :: kinds).reverse.map .start }
  | some .finish => some { resolution with log := left, calls := resolution.calls ++ [.finish] }
  | some (.token kind length) =>
      some
        { log := left
          calls := resolution.calls ++ [.token kind length]
          freshTokens := resolution.freshTokens + 1 }
  | some (.reused kind children) =>
      some { resolution with log := left, calls := resolution.calls ++ [.reuse kind children] }
  | none => none

/-- The calls that a log stands for, inside of a source file, with the number of tokens
that were taken down. -/
def resolve (log : Log) : Option (List Call × Nat) :=
  let start : Resolution := { log := log, calls := [.start .sourceFile], freshTokens := 0 }
  ((List.range log.length).foldlM Resolution.visit start).map fun resolution =>
    (resolution.calls ++ [.finish], resolution.freshTokens)

theorem performAll_append (first second : List Operation) (log : Log) :
    performAll (first ++ second) log = (performAll first log).bind (performAll second) := by
  rw [performAll, List.foldlM_append]
  rfl

theorem performAll_cons (operation : Operation) (rest : List Operation) (log : Log) :
    performAll (operation :: rest) log = (perform operation log).bind (performAll rest) :=
  rfl

theorem performAll_singleton (operation : Operation) (log : Log) :
    performAll [operation] log = perform operation log := by
  simp [performAll]

theorem length_perform {operation : Operation} {log next : Log}
    (taken : perform operation log = some next) : next.length = log.length + 1 := by
  cases operation with
  | add tree =>
      obtain rfl := Option.some_inj.mp taken
      simp
  | start =>
      obtain rfl := Option.some_inj.mp taken
      simp
  | complete marker kind =>
      simp only [perform] at taken
      split at taken
      · obtain rfl := Option.some_inj.mp taken
        simp
      · contradiction
  | precede completed =>
      simp only [perform] at taken
      split at taken
      · obtain rfl := Option.some_inj.mp taken
        simp
      · contradiction

theorem length_performAll {operations : List Operation} {log next : Log}
    (taken : performAll operations log = some next) :
    next.length = log.length + operations.length := by
  induction operations generalizing log with
  | nil =>
      obtain rfl := Option.some_inj.mp taken
      rfl
  | cons operation rest ih =>
      rw [performAll_cons] at taken
      obtain ⟨middle, first, behind⟩ := Option.bind_eq_some_iff.mp taken
      rw [ih behind, length_perform first, List.length_cons]
      omega

end Log
end Asm6502
