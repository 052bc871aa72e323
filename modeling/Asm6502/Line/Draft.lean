import Asm6502.Diagnostic
import Asm6502.Line.Cause
import Asm6502.Token
import Asm6502.Tree.Sketch
import Asm6502.Tree.Step

/-!
# Drafts of a line

A draft is a logical line that has been read up to some token.  It holds the
tokens still to come, the nodes built so far and the faults found so far.  All
offsets count from the start of the line.

Every grammar rule is a composition of the few operations below, and each of
them moves tokens from the rest to the sketch, or leaves both as they are.
-/

namespace Asm6502

/-- What an open node of a line waits for. -/
inductive Role where
  /-- A node that its own rule will close. -/
  | plain
  /-- A prefix operator waiting for its operand. -/
  | unary (power : Nat)
  /-- A left operand and an operator, waiting for the right operand. -/
  | binary (power : Nat)
  /-- An opening parenthesis waiting for the closing one. -/
  | paren
  /-- A call of a function whose parenthesis is open. -/
  | call
deriving DecidableEq, Repr

/-- How tightly an open node holds on to what follows. -/
def Role.power : Role → Nat
  | .unary power => power
  | .binary power => power
  | .plain | .paren | .call => 0

structure Draft where
  /-- Where `rest` starts. -/
  offset : Nat := 0
  /-- Where the last significant token ended. -/
  lastEnd : Nat := 0
  /-- Tokens not yet taken. -/
  rest : List Token
  sketch : Sketch Role := {}
  /-- Latest first. -/
  diagnostics : List Diagnostic := []
  /-- What has been done to the tree, latest first. -/
  steps : List Log.Step := []
deriving Repr

namespace Draft

def leaf (token : Token) : Tree :=
  .token token.kind token.length

def trivia (draft : Draft) : List Token :=
  draft.rest.takeWhile Token.isTrivia

def upcoming (draft : Draft) : List Token :=
  draft.rest.dropWhile Token.isTrivia

def significant (draft : Draft) : List Token :=
  draft.rest.filter fun token => !token.isTrivia

def tokenAt? (draft : Draft) (index : Nat) : Option Token :=
  Token.significantAt? index draft.rest

/-- The kind of the significant token that `index` others precede. -/
def kindAt (draft : Draft) (index : Nat) : Kind :=
  ((draft.tokenAt? index).map Token.kind).getD .eof

/-- The text of the significant token that `index` others precede. -/
def textAt (draft : Draft) (index : Nat) : Bytes :=
  ((draft.tokenAt? index).map Token.text).getD []

def peek (draft : Draft) : Kind :=
  draft.kindAt 0

def atLineEnd (draft : Draft) : Bool :=
  draft.peek.endsLine

/-- Where the next significant token starts, or where the text ends. -/
def nextStart (draft : Draft) : Nat :=
  draft.offset + Token.totalLength draft.trivia

/-- The span of the next significant token, empty at the end of the text. -/
def nextSpan (draft : Draft) : Span :=
  ⟨draft.nextStart,
    draft.nextStart + (draft.upcoming.head?.map Token.length).getD 0⟩

def takeTrivia (draft : Draft) : Draft :=
  { draft with
    offset := draft.nextStart
    rest := draft.upcoming
    sketch := draft.sketch.addAll (draft.trivia.map leaf)
    steps := (draft.trivia.map fun token => .add (leaf token)).reverse ++ draft.steps }

/-- Take the next token, which is significant. -/
def takeToken (draft : Draft) : Draft :=
  match draft.rest with
  | [] => draft
  | token :: rest =>
      { draft with
        offset := draft.offset + token.length
        lastEnd := draft.offset + token.length
        rest := rest
        sketch := draft.sketch.add (leaf token)
        steps := .add (leaf token) :: draft.steps }

/-- Take the next significant token and the trivia before it.  At the end of
the text nothing is taken. -/
def bump (draft : Draft) : Draft :=
  if draft.upcoming.isEmpty then draft else draft.takeTrivia.takeToken

/-- Take significant tokens as long as the line goes on and `next` accepts
their kinds, keeping track of a state. -/
def takeTokens {σ : Type} (next : σ → Kind → Option σ) (state : σ)
    (draft : Draft) : σ × Draft :=
  go draft.rest state draft
where
  /-- Goes on for at most as many steps as there are tokens. -/
  go : (tokens : List Token) → σ → Draft → σ × Draft
    | [], state, draft => (state, draft)
    | _ :: tokens, state, draft =>
        if draft.atLineEnd then (state, draft)
        else
          match next state draft.peek with
          | none => (state, draft)
          | some state => go tokens state draft.bump

/-- Take significant tokens up to the end of the line or the first kind that
`stop` accepts. -/
def takeUntil (stop : Kind → Bool) (draft : Draft) : Draft :=
  (draft.takeTokens (fun _ kind => if stop kind then none else some ()) ()).2

/-- What the innermost open node waits for. -/
def role (draft : Draft) : Role :=
  draft.sketch.tag?.getD .plain

/-- Open a node at the next significant token; the trivia before it stay
outside. -/
def enter (role : Role) (draft : Draft) : Draft :=
  let draft := draft.takeTrivia
  { draft with
    sketch := draft.sketch.enter role
    steps := .start :: draft.steps }

/-- Open a node around the one that was closed last. -/
def wrap (role : Role) (draft : Draft) : Draft :=
  { draft with
    sketch := draft.sketch.wrap role
    steps := .precede :: draft.steps }

def leave (kind : Kind) (draft : Draft) : Draft :=
  { draft with
    sketch := draft.sketch.leave kind
    steps := .complete kind :: draft.steps }

/-- Build a node by a rule that closes whatever it opens. -/
def node (kind : Kind) (rule : Draft → Draft) (draft : Draft) : Draft :=
  (rule (draft.enter .plain)).leave kind

def errorAt (cause : Cause) (span : Span) (draft : Draft) : Draft :=
  { draft with diagnostics := ⟨cause.message, span⟩ :: draft.diagnostics }

def error (cause : Cause) (draft : Draft) : Draft :=
  draft.errorAt cause draft.nextSpan

/-- Take a token of the given kind, or report that it is missing. -/
def expect (kind : Kind) (cause : Cause) (draft : Draft) : Draft :=
  if draft.peek = kind then draft.bump else draft.error cause

/-- Put tokens into an error node up to the end of the line or the first kind
that `stop` accepts, but at least one.  At the end of the line only the fault
is reported. -/
def recover (cause : Cause) (stop : Kind → Bool) (draft : Draft) : Draft :=
  if draft.atLineEnd then draft.error cause
  else
    let skipped := draft.node .errorNode fun draft => draft.bump.takeUntil stop
    skipped.errorAt cause ⟨draft.nextStart, skipped.lastEnd⟩

def separated (item : Draft → Draft) (draft : Draft) : Draft :=
  go draft.rest draft
where
  /-- Takes at most as many commas as there are tokens. -/
  go : (tokens : List Token) → Draft → Draft
    | [], draft => item draft
    | _ :: tokens, draft =>
        let draft := item draft
        if draft.peek = .comma then go tokens draft.bump else draft

end Draft
end Asm6502
