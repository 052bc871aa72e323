import Asm6502.Line.Statement

/-!
# Lines

A logical line is read on its own: labels, at most one statement, and the
line's end.  Its tree and its faults depend on its tokens and on the innermost
open block, and on nothing else in the text.
-/

namespace Asm6502

/-- A line that has been read.  Offsets count from its start. -/
structure Line where
  tree : Tree
  diagnostics : List Diagnostic
  edge? : Option BlockEdge
  /-- What was done to the tree, in order. -/
  steps : List Log.Step
deriving Repr

namespace Line

/-- Labels in front of the statement.  The unnamed label only exists at the
start of the line. -/
def labels : (fuel : Nat) → (first : Bool) → Draft → Draft
  | 0, _, draft => draft
  | fuel + 1, first, draft =>
      match draft.peek with
      | .ident | .localIdent =>
          if draft.kindAt 1 = .colon then
            labels fuel false
              (draft.node .label fun draft => draft.bump.bump)
          else draft
      | .colon =>
          if first then labels fuel false (draft.node .label Draft.bump)
          else draft
      | _ => draft

/-- The line's end, or the trivia before the end of the text. -/
def finish (draft : Draft) : Draft :=
  if draft.peek = .eol then draft.bump else draft.takeTrivia

def lineEnd (draft : Draft) : Draft :=
  if draft.atLineEnd then finish draft
  else finish (draft.recover .expectedEndOfLine fun _ => false)

/-- What happens in a line, with the node of the line itself, which begins behind the trivia
in front of the first significant token. -/
def enclose (steps : List Log.Step) : List Log.Step :=
  steps.takeWhile Log.Step.addsTrivia ++
    .start :: (steps.dropWhile Log.Step.addsTrivia ++ [.complete .line])

def read (dialect : Dialect) (block? : Option BlockKind)
    (tokens : List Token) : Line :=
  let labelled := labels tokens.length true { rest := tokens }
  let (stated, edge?) := Statement.read dialect block? labelled
  let ended := lineEnd stated
  { tree := .node .line ended.sketch.trees
    diagnostics := ended.diagnostics.reverse
    edge? := edge?
    steps := enclose ended.steps.reverse }

end Line
end Asm6502
