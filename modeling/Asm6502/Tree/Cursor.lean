import Asm6502.Tree.Arena

/-!
# Cursors

A cursor moves among the elements below the node it was created at and never
leaves it.  It keeps no more than where it is and where it was created: at its
root it has no parent and no siblings.
-/

namespace Asm6502

structure Cursor where
  arena : Arena
  /-- The number of the node it was created at. -/
  root : Nat
  here : Handle

namespace Cursor

/-- A cursor at a node, which becomes its root. -/
def atNode (arena : Arena) (root : Nat) : Cursor :=
  ⟨arena, root, .node root⟩

def atRoot (cursor : Cursor) : Bool :=
  cursor.here == .node cursor.root

def reset (cursor : Cursor) : Cursor :=
  { cursor with here := .node cursor.root }

def goTo (target? : Option Handle) (cursor : Cursor) : Option Cursor :=
  target?.map fun target => { cursor with here := target }

def firstChild? (cursor : Cursor) : Option Cursor :=
  cursor.goTo (cursor.arena.firstChild? cursor.here)

def lastChild? (cursor : Cursor) : Option Cursor :=
  cursor.goTo (cursor.arena.lastChild? cursor.here)

/-- Go to the first child that ends behind an offset. -/
def childFor? (offset : Nat) (cursor : Cursor) : Option Cursor :=
  cursor.goTo ((cursor.arena.children cursor.here).find? fun child =>
    offset < (cursor.arena.span child).stop)

def next? (cursor : Cursor) : Option Cursor :=
  if cursor.atRoot then none
  else cursor.goTo (cursor.arena.next? cursor.here)

def previous? (cursor : Cursor) : Option Cursor :=
  if cursor.atRoot then none
  else cursor.goTo (cursor.arena.previous? cursor.here)

def parent? (cursor : Cursor) : Option Cursor :=
  if cursor.atRoot then none
  else cursor.goTo ((cursor.arena.parent? cursor.here).map .node)

/-- How many nodes up from a node its ancestor `root` is.  There is no answer
where no ancestor is.  Parents have lower numbers than their children. -/
def stepsUp? (arena : Arena) (root number : Nat) : Option Nat :=
  if number = root then some 0
  else
    match (arena.nodeEntry number).parent? with
    | none => none
    | some parent =>
        if parent < number then (stepsUp? arena root parent).map (· + 1)
        else none
termination_by number

def depth (cursor : Cursor) : Nat :=
  if cursor.atRoot then 0
  else
    ((cursor.arena.parent? cursor.here).bind fun parent =>
      (stepsUp? cursor.arena cursor.root parent).map (· + 1)).getD 0

/-- A number that is lower for the parent: nodes are numbered parents first, and
tokens count as behind all nodes. -/
def rank (cursor : Cursor) : Nat :=
  match cursor.here with
  | .node number => number
  | .token _ => cursor.arena.nodes.size

/-- Go to the next sibling, or to that of the first enclosing node that has one:
whether there is any, and where the cursor stands then.  There is no answer if
a parent is numbered behind its child. -/
def climb (cursor : Cursor) : Option (Bool × Cursor) :=
  match cursor.next? with
  | some sibling => some (true, sibling)
  | none =>
      match cursor.parent? with
      | some above => if above.rank < cursor.rank then climb above else none
      | none => some (false, cursor)
termination_by cursor.rank

/-- Go to the next element of a walk that visits parents before children: whether
there is any, and where the cursor stands then. -/
def advance (cursor : Cursor) : Option (Bool × Cursor) :=
  match cursor.firstChild? with
  | some child => some (true, child)
  | none => cursor.climb

end Cursor
end Asm6502
