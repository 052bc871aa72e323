import Asm6502.Tree.Sketch

/-!
# Building trees by hand

A builder takes nodes, tokens and finished subtrees in text order.  Trivia are
held back until it is clear where they belong:

* a node that absorbs trivia leaves them pending when it starts, so the
  innermost such node takes the trivia before its first token;
* any other node starts at its first significant token, and the trivia go to
  its parent;
* a significant token or a subtree brings the trivia before it into the
  innermost open node;
* a node that absorbs trivia takes the pending ones when it is finished.

Nodes without children are dropped, except for the outermost one.
-/

namespace Asm6502

structure Builder where
  /-- Open nodes are tagged with their kinds. -/
  sketch : Sketch Kind := {}
  /-- Trivia held back, in order. -/
  pending : List (Kind × Nat) := []
deriving Repr

/-- Why a builder cannot go on. -/
inductive BuildError where
  /-- There is no open node to finish. -/
  | nothingOpen
  /-- Some node is still open. -/
  | unfinished
  /-- Trivia were added outside of every node. -/
  | strayTrivia
  /-- What was built is not exactly one node. -/
  | notOneRoot
deriving DecidableEq, Repr

namespace Builder

/-- Put the trivia held back into the innermost open node. -/
def flush (builder : Builder) : Builder :=
  { sketch :=
      builder.sketch.addAll
        (builder.pending.map fun (kind, length) => .token kind length)
    pending := [] }

def start (kind : Kind) (builder : Builder) : Builder :=
  let builder := if kind.absorbsTrivia then builder else builder.flush
  { builder with sketch := builder.sketch.enter kind }

def token (kind : Kind) (length : Nat) (builder : Builder) : Builder :=
  if kind.isTrivia then
    { builder with pending := builder.pending ++ [(kind, length)] }
  else
    let builder := builder.flush
    { builder with sketch := builder.sketch.add (.token kind length) }

def reuse (tree : Tree) (builder : Builder) : Builder :=
  let builder := builder.flush
  { builder with sketch := builder.sketch.add tree }

/-- Close the innermost open node of a sketch.  The outermost one stays even
without children. -/
def close (kind : Kind) (sketch : Sketch Kind) : Sketch Kind :=
  match sketch.opened with
  | [(_, [])] =>
      { settled := .node kind [] :: sketch.settled, opened := [] }
  | _ => sketch.leave kind

def finish (builder : Builder) : Except BuildError Builder :=
  match builder.sketch.tag? with
  | none => .error .nothingOpen
  | some kind =>
      let builder := if kind.absorbsTrivia then builder.flush else builder
      .ok { builder with sketch := close kind builder.sketch }

def done (builder : Builder) : Except BuildError Tree :=
  if !builder.sketch.opened.isEmpty then .error .unfinished
  else if !builder.pending.isEmpty then .error .strayTrivia
  else
    match builder.sketch.settled with
    | [.node kind children] => .ok (.node kind children)
    | _ => .error .notOneRoot

end Builder
end Asm6502
