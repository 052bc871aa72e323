import Asm6502.Line
import Asm6502.Parse.Reuse
import Asm6502.Token.Scan

/-!
# Reading a text

A text is read line by line.  An opening line is wrapped into its block after
the fact, and a matching closing line completes it.  Between two lines with no
block open, a subtree of an older tree can be taken over instead.

Reading can be told to stop once a number of subtrees has been taken over; the
result then covers what was read so far.
-/

namespace Asm6502

/-- A block whose closing line has not been read, with the span of the command
word that opened it. -/
structure OpenBlock where
  block : BlockKind
  keyword : Span
deriving DecidableEq, Repr

/-- A subtree that was taken over, and where it stands in the new text. -/
structure Splice where
  kind : Kind
  span : Span
deriving DecidableEq, Repr

/-- A text that has been read up to some offset. -/
structure Reading where
  offset : Nat := 0
  sketch : Sketch OpenBlock := {}
  /-- Latest first. -/
  diagnostics : List Diagnostic := []
  candidates : List Candidate := []
  /-- Latest first. -/
  splices : List Splice := []
  /-- How many tokens were scanned rather than taken over. -/
  freshTokens : Nat := 0
  /-- What has been done to the tree, latest first. -/
  steps : List Log.Step := []
deriving Repr

namespace Reading

/-- The innermost open block. -/
def block? (reading : Reading) : Option BlockKind :=
  reading.sketch.tag?.map OpenBlock.block

def splice (candidate : Candidate) (remaining : List Candidate)
    (reading : Reading) : Reading :=
  let stop := reading.offset + candidate.tree.length
  { reading with
    offset := stop
    sketch := reading.sketch.add candidate.tree
    diagnostics := candidate.movedDiagnostics.reverse ++ reading.diagnostics
    candidates := remaining
    splices :=
      ⟨candidate.tree.kind, ⟨reading.offset, stop⟩⟩ :: reading.splices
    steps := .add candidate.tree :: reading.steps }

/-- Open or close a block after the line that does so has been added. -/
def applyEdge (offset : Nat) (sketch : Sketch OpenBlock) :
    Option BlockEdge → Sketch OpenBlock
  | none => sketch
  | some (.opens block keyword) => sketch.wrap ⟨block, keyword.shift offset⟩
  | some .closes =>
      match sketch.tag? with
      | none => sketch
      | some openBlock => sketch.leave openBlock.block.nodeKind

/-- What opening or closing a block does to the tree. -/
def edgeSteps (sketch : Sketch OpenBlock) : Option BlockEdge → List Log.Step
  | none => []
  | some (.opens _ _) => [.precede]
  | some .closes =>
      match sketch.tag? with
      | none => []
      | some openBlock => [.complete openBlock.block.nodeKind]

def addLine (dialect : Dialect) (tokens : List Token) (reading : Reading) :
    Reading :=
  let line := Line.read dialect reading.block? tokens
  { reading with
    offset := reading.offset + Token.totalLength tokens
    sketch :=
      applyEdge reading.offset (reading.sketch.add line.tree) line.edge?
    diagnostics :=
      (line.diagnostics.map (Diagnostic.shift reading.offset)).reverse ++
        reading.diagnostics
    freshTokens := reading.freshTokens + tokens.length
    steps := edgeSteps reading.sketch line.edge? ++ (line.steps.reverse ++ reading.steps) }

/-- The subtree to take over before the given rest of the text, if no block is
open and one fits. -/
def reusable? (rest : Bytes) (reading : Reading) :
    Option (Candidate × List Candidate) :=
  if reading.sketch.opened.isEmpty then
    Candidate.next? reading.offset rest reading.candidates
  else none

/-- Take over a subtree or read a line, from the given rest of the text. -/
def advance (dialect : Dialect) (rest : Bytes) (reading : Reading) : Reading :=
  match reading.reusable? rest with
  | some (candidate, remaining) => reading.splice candidate remaining
  | none => reading.addLine dialect (Scan.line dialect rest)

/-- Enough subtrees have been taken over. -/
def isStopped (stopAfter : Option Nat) (reading : Reading) : Bool :=
  stopAfter.any fun count => count ≤ reading.splices.length

/-- Read the rest of a text of which `skip` bytes have been read already. -/
def readFrom (dialect : Dialect) (stopAfter : Option Nat) :
    (skip : Nat) → Bytes → Reading → Reading
  | _, [], reading => reading
  | skip + 1, _ :: rest, reading =>
      readFrom dialect stopAfter skip rest reading
  | 0, byte :: rest, reading =>
      if reading.isStopped stopAfter then reading
      else
        let next := reading.advance dialect (byte :: rest)
        readFrom dialect stopAfter (next.offset - reading.offset - 1) rest next

/-- Report the blocks that are still open, innermost first, and close them. -/
def closeBlocks : List OpenBlock → Reading → Reading
  | [], reading => reading
  | openBlock :: outer, reading =>
      closeBlocks outer
        { reading with
          sketch := reading.sketch.leave openBlock.block.nodeKind
          steps := .complete openBlock.block.nodeKind :: reading.steps
          diagnostics :=
            ⟨(Cause.unterminatedBlock openBlock.block).message,
              openBlock.keyword⟩ :: reading.diagnostics }

/-- Read a whole text, taking over what the candidates offer. -/
def ofText (dialect : Dialect) (stopAfter : Option Nat)
    (candidates : List Candidate) (text : Bytes) : Reading :=
  let reading :=
    readFrom dialect stopAfter 0 text { candidates := candidates }
  closeBlocks (reading.sketch.opened.map Prod.fst) reading

/-- The tree and the diagnostics of what has been read. -/
def toParse (stopAfter : Option Nat) (text : Bytes) (reading : Reading) :
    Parse :=
  let root := Tree.node .sourceFile reading.sketch.trees
  { text := text.take root.length
    root := root
    diagnostics := Diagnostic.inOrder reading.diagnostics.reverse
    cancelled := reading.isStopped stopAfter }

end Reading
end Asm6502
