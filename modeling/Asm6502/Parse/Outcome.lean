import Asm6502.Parse.Reading
import Asm6502.Text.Chunks

/-!
# Parsing and reparsing

The entry points: a text is parsed from scratch, or against an older parse and
the edits that lead from one text to the other.  Both give the same tree and
the same diagnostics.
-/

namespace Asm6502

/-- Offsets are counted in 32 bits, so no text may be longer. -/
def maxTextLength : Nat := 4294967295

/-- Limits for one parse. -/
structure ParseOptions where
  /-- Refuse longer texts. -/
  maxLength? : Option Nat := none
  /-- Stop after this many subtrees have been taken over; zero stops before
  anything is read. -/
  stopAfter : Option Nat := none
deriving DecidableEq, Repr

namespace ParseOptions

def limit (options : ParseOptions) : Nat :=
  min (options.maxLength?.getD maxTextLength) maxTextLength

/-- Refuse a text that is too long. -/
def check (options : ParseOptions) (text : Bytes) :
    Except InputTooLarge Unit :=
  if options.limit < text.length then
    .error ⟨text.length, options.limit⟩
  else .ok ()

end ParseOptions

/-- What a reparse took over. -/
structure ReuseReport where
  splices : List Splice
  /-- How many subtrees the plan offered. -/
  offered : Nat
  freshTokens : Nat
deriving DecidableEq, Repr

namespace ReuseReport

def reusedBytes (report : ReuseReport) : Nat :=
  Span.totalLength (report.splices.map Splice.span)

/-- A line for each subtree and a summary. -/
def messages (report : ReuseReport) : List String :=
  report.splices.map
      (fun splice =>
        "reusing " ++ splice.kind.spelling ++ " at " ++ splice.span.render) ++
    ["reparse: reused " ++ toString report.splices.length ++ "/" ++
      toString report.offered ++ " children (" ++
      toString report.reusedBytes ++ " bytes), " ++
      toString report.freshTokens ++ " fresh tokens"]

end ReuseReport

namespace Parse

/-- What is given for a text that is too long: nothing of it is read, and the only
diagnostic says why. -/
def rejected (error : InputTooLarge) : Parse where
  text := []
  root := .node .sourceFile []
  diagnostics := [⟨error.message, ⟨0, 0⟩⟩]
  cancelled := true

def fromScratch (dialect : Dialect) (stopAfter : Option Nat) (text : Bytes) : Parse :=
  (Reading.ofText dialect stopAfter [] text).toParse stopAfter text

/-- Read a whole text from scratch, however long it is. -/
def entire (dialect : Dialect) (text : Bytes) : Parse :=
  fromScratch dialect none text

/-- Parse a text within limits. -/
def ofText? (dialect : Dialect) (options : ParseOptions) (text : Bytes) :
    Except InputTooLarge Parse := do
  options.check text
  return fromScratch dialect options.stopAfter text

/-- Parse a text from scratch. -/
def ofText (dialect : Dialect) (text : Bytes) : Parse :=
  match ofText? dialect {} text with
  | .ok parse => parse
  | .error error => rejected error

def ofChunks? (dialect : Dialect) (options : ParseOptions)
    (chunks : List Bytes) : Except InputTooLarge Parse := do
  let text ← Chunks.readAll options.maxLength? chunks
  ofText? dialect options text

/-- Read the text that edits have made of an older one, taking over what they did
not touch. -/
def takeOver (dialect : Dialect) (stopAfter : Option Nat) (old : Parse)
    (edits : List Edit) (text : Bytes) : Parse × ReuseReport :=
  let candidates := Candidate.plan old edits
  let reading := Reading.ofText dialect stopAfter candidates text
  (reading.toParse stopAfter text,
    { splices := reading.splices.reverse
      offered := candidates.length
      freshTokens := reading.freshTokens })

/-- Reparse within limits. -/
def reparse? (dialect : Dialect) (options : ParseOptions) (old : Parse)
    (edits : List Edit) (text : Bytes) :
    Except InputTooLarge (Parse × ReuseReport) := do
  options.check text
  return takeOver dialect options.stopAfter old edits text

/-- Parse the text that edits have made of an older one, taking over what they
did not touch. -/
def reparse (dialect : Dialect) (old : Parse) (edits : List Edit) (text : Bytes) :
    Parse :=
  match reparse? dialect {} old edits text with
  | .ok (parse, _) => parse
  | .error error => rejected error

/-- For consecutive trees from an offset on, whether each was taken over, by
the splices in order. -/
def sharedFrom : (start : Nat) → List Splice → List Tree → List Bool
  | _, _, [] => []
  | start, [], tree :: rest => false :: sharedFrom (start + tree.length) [] rest
  | start, splice :: splices, tree :: rest =>
      if splice.span.start = start then
        true :: sharedFrom (start + tree.length) splices rest
      else false :: sharedFrom (start + tree.length) (splice :: splices) rest

/-- For each child of the new root, whether it was taken over. -/
def shared (parse : Parse) (report : ReuseReport) : List Bool :=
  sharedFrom 0 report.splices parse.root.children

end Parse
end Asm6502
