import Asm6502.Line.Draft
import Asm6502.Line.Operator

/-!
# Expressions

Expressions are read by a machine that climbs operator precedence.  What is
still open (operators, parentheses, calls) stands in the sketch of the line, so
nesting has no limit.  The machine either looks for an operand or has just left
one behind; it stops at an open node that it did not open itself.

The commas, parentheses and line ends that can follow an expression are never
taken into an error.
-/

namespace Asm6502
namespace Expression

def single (kind : Kind) (draft : Draft) : Draft :=
  draft.node kind Draft.bump

/-- `::name` as often as it stands there, at most once for each of the tokens
given; a missing name ends the chain.  Tells whether there was one. -/
def scopes : (tokens : List Token) → Draft → Bool × Draft
  | [], draft => (false, draft)
  | _ :: tokens, draft =>
      if draft.peek = .colon2 then
        let draft := draft.bump
        if draft.peek = .ident then (true, (scopes tokens draft.bump).2)
        else (true, draft.error .expectedName)
      else (false, draft)

def name (draft : Draft) : Draft :=
  let draft := draft.enter .plain
  let (rooted, draft) :=
    if draft.peek = .colon2 then
      (true, draft.bump.expect .ident .expectedName)
    else (false, draft.bump)
  let (chained, draft) := scopes draft.rest draft
  draft.leave (if rooted || chained then .member else .identifier)

/-- A word directly followed by `(`, without a space. -/
def atMacroCall (draft : Draft) : Bool :=
  match draft.upcoming with
  | first :: second :: _ =>
      first.kind == .ident && second.kind == .leftParen
  | _ => false

/-- Raw tokens up to a `,` or `)` outside of nested parentheses and braces. -/
def rawArgument (draft : Draft) : Draft :=
  draft.node .macroArg fun draft =>
    (draft.takeTokens step 0).2
where
  step (depth : Nat) (kind : Kind) : Option Nat :=
    match kind with
    | .comma => if depth = 0 then none else some depth
    | .rightParen => if depth = 0 then none else some (depth - 1)
    | .rightBrace => some (depth - 1)
    | .leftParen | .leftBrace => some (depth + 1)
    | _ => some depth

/-- A macro called with arguments in parentheses; each may be empty. -/
def macroCall (draft : Draft) : Draft :=
  draft.node .macroCall fun draft =>
    (draft.bump.bump.separated fun draft =>
      match draft.peek with
      | .comma | .rightParen | .eol | .eof => draft
      | _ => rawArgument draft).expect .rightParen .expectedClosingParen

def braced (draft : Draft) : Draft :=
  draft.node .macroArg fun draft =>
    let (depth, draft) := draft.bump.takeTokens step 1
    if depth = 0 then draft else draft.error .expectedClosingBrace
where
  step (depth : Nat) (kind : Kind) : Option Nat :=
    if depth = 0 then none
    else
      match kind with
      | .leftBrace => some (depth + 1)
      | .rightBrace => some (depth - 1)
      | _ => some depth

/-- What the machine does next. -/
inductive Stage where
  /-- Look for an operand. -/
  | operand
  /-- Look for an operator.  The flag tells whether an operand stands before
  it. -/
  | operator (complete : Bool)
  /-- The expression has ended. -/
  | done
deriving DecidableEq, Repr

abbrev State := Stage × Draft

/-- The kind of node that a single token makes as an operand.  Mnemonics and
registers are names only as arguments of a call. -/
def primaryKind? (inCall : Bool) : Kind → Option Kind
  | .number => some .numberLiteral
  | .char => some .charLiteral
  | .string => some .stringLiteral
  | .localIdent => some .localLabelRef
  | .unnamedRef => some .unnamedLabelRef
  | .pseudoVarKw | .star => some .pseudoVar
  | .mnemonic | .register => if inCall then some .identifier else none
  | _ => none

/-- Read an operand without prefix operators.  Nothing is taken, and there is
no operand, where a comma, a closing parenthesis or the line's end stands. -/
def primary (draft : Draft) : State :=
  let inCall := draft.role == .call
  if atMacroCall draft then (.operator true, macroCall draft)
  else
    match primaryKind? inCall draft.peek with
    | some kind => (.operator true, single kind draft)
    | none =>
        match draft.peek with
        | .ident | .colon2 => (.operator true, name draft)
        | .eol | .eof | .comma | .rightParen =>
            (.operator false, draft.error .expectedExpression)
        | .leftBrace =>
            if inCall then (.operator true, braced draft)
            else (.operator true, stray draft)
        | _ => (.operator true, stray draft)
where
  stray (draft : Draft) : Draft :=
    draft.node .errorNode fun draft => (draft.error .expectedExpression).bump

/-- The head of a function call: its name and `(`. -/
def callHead (draft : Draft) : State :=
  let draft := (draft.enter .call).bump
  if draft.peek = .leftParen then
    let draft := draft.bump
    if draft.peek = .rightParen then
      (.operator true, draft.bump.leave .callExpr)
    else (.operand, draft)
  else
    (.operator true, (draft.error .expectedOpeningParen).leave .callExpr)

def operandStep (draft : Draft) : State :=
  match Operator.prefixPower? draft.peek (draft.textAt 0) with
  | some power => (.operand, (draft.enter (.unary power)).bump)
  | none =>
      match draft.peek with
      | .leftParen => (.operand, (draft.enter .paren).bump)
      | .pseudoFnKw => callHead draft
      | _ => primary draft

def closeStep (draft : Draft) : State :=
  match draft.role with
  | .plain => (.done, draft)
  | .unary _ => (.operator true, draft.leave .unaryExpr)
  | .binary _ => (.operator true, draft.leave .binaryExpr)
  | .paren =>
      (.operator true,
        (draft.expect .rightParen .expectedClosingParen).leave .parenExpr)
  | .call =>
      if draft.peek = .comma then (.operand, draft.bump)
      else
        (.operator true,
          (draft.expect .rightParen .expectedClosingParen).leave .callExpr)

/-- Go on with an operator that binds tighter than what is open, or else close
what is open. -/
def operatorStep (complete : Bool) (draft : Draft) : State :=
  match Operator.infixPower? draft.peek (draft.textAt 0) with
  | some power =>
      if complete && draft.role.power < power then
        (.operand, (draft.wrap (.binary power)).bump)
      else closeStep draft
  | none => closeStep draft

/-- One step of the machine; none when it has stopped. -/
def step : State → Option State
  | (.operand, draft) => some (operandStep draft)
  | (.operator complete, draft) => some (operatorStep complete draft)
  | (.done, _) => none

def run : Nat → State → State
  | 0, state => state
  | fuel + 1, state =>
      match step state with
      | none => state
      | some next => run fuel next

/-- Three steps for each of some tokens, and three more.  Every token is taken
once and opens at most one node, which is closed once, so this is enough to read
what stands in those tokens. -/
def runAlong : (tokens : List Token) → State → State
  | [], state => run 3 state
  | _ :: tokens, state =>
      if state.1 = .done then state else runAlong tokens (run 3 state)

def read (draft : Draft) : Draft :=
  (runAlong draft.rest (.operand, draft)).2

theorem run_done (fuel : Nat) (draft : Draft) :
    run fuel (.done, draft) = (.done, draft) := by
  cases fuel <;> rfl

theorem run_add (first second : Nat) (state : State) :
    run (first + second) state = run second (run first state) := by
  induction first generalizing state with
  | zero => simp [run]
  | succ first ih =>
      rw [Nat.succ_add]
      cases stepped : step state with
      | none =>
          have stays : ∀ fuel, run fuel state = state := by
            intro fuel
            cases fuel <;> simp [run, stepped]
          simp [stays]
      | some next => simp [run, stepped, ih]

theorem runAlong_eq_run (tokens : List Token) (state : State) :
    runAlong tokens state = run (3 * tokens.length + 3) state := by
  induction tokens generalizing state with
  | nil => rfl
  | cons token tokens ih =>
      obtain ⟨stage, draft⟩ := state
      unfold runAlong
      split
      · next ended =>
          obtain rfl : stage = .done := ended
          rw [run_done]
      · rw [ih, ← run_add]
        congr 1
        simp only [List.length_cons]
        omega

end Expression
end Asm6502
