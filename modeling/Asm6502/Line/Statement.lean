import Asm6502.Dialect
import Asm6502.Line.Arguments
import Asm6502.Line.Operand
import Asm6502.Text.Utf8

/-!
# Statements

What a line does after its labels: an instruction, a control command, an
assignment, a macro call or, in blocks that declare members, a field.  A
command can also open or close a block; the innermost open block decides which
commands are in place.
-/

namespace Asm6502

/-- A line's effect on the open blocks. -/
inductive BlockEdge where
  /-- The line opens a block with the command word at the given span. -/
  | opens (block : BlockKind) (keyword : Span)
  /-- The line closes the innermost block. -/
  | closes
deriving DecidableEq, Repr

namespace Statement

/-- Where recovery from a line's first error stops. -/
def startsStatement : Kind → Bool
  | .directiveKw | .mnemonic => true
  | _ => false

/-- The command that the significant token at `index` spells. -/
def directiveAt? (dialect : Dialect) (draft : Draft) (index : Nat) :
    Option Directive :=
  if draft.kindAt index = .directiveKw then
    dialect.directive? (draft.textAt index)
  else none

def command (directive : Directive) (draft : Draft) : Draft :=
  draft.node .directive fun draft =>
    Arguments.read directive.arguments draft.bump

/-- Why a command is out of place in the innermost open block. -/
def misplaced? (block? : Option BlockKind) (directive : Directive) :
    Option Cause :=
  match directive.role, block? with
  | .closes block, some innermost =>
      if block = innermost then none
      else some (.mismatchedCloser innermost directive.name)
  | .closes _, none => some (.closerOutsideBlock directive.name)
  | .branch, some .conditional => none
  | .branch, _ => some (.branchOutsideConditional directive.name)
  | .plain, _ => none
  | .opens _, _ => none

/-- The effect of a command in place, its word standing at `keyword`. -/
def edge? (keyword : Span) : BlockRole → Option BlockEdge
  | .opens block => some (.opens block keyword)
  | .closes _ => some .closes
  | .plain => none
  | .branch => none

def directive (dialect : Dialect) (block? : Option BlockKind) (draft : Draft) :
    Draft × Option BlockEdge :=
  match directiveAt? dialect draft 0 with
  | none => (draft.recover .unlistedDirective fun _ => false, none)
  | some directive =>
      match misplaced? block? directive with
      | some cause => (draft.recover cause fun _ => false, none)
      | none => (command directive draft, edge? draft.nextSpan directive.role)

def instruction (draft : Draft) : Draft :=
  draft.node .instruction fun draft => Operand.read draft.bump

/-- A symbol, `=`, `:=` or an assigning command, and a value. -/
def assignment (draft : Draft) : Draft :=
  draft.node .symbolAssignment fun draft => Expression.read draft.bump.bump

def isAssignment (dialect : Dialect) (draft : Draft) : Bool :=
  draft.kindAt 1 == .eq || draft.kindAt 1 == .colonEq ||
    (directiveAt? dialect draft 1).any fun directive =>
      directive.arguments == .assignment

def rawArgument (draft : Draft) : Draft :=
  draft.node .macroArg fun draft => (draft.takeTokens step 0).2
where
  step (depth : Nat) (kind : Kind) : Option Nat :=
    match kind with
    | .comma => if depth = 0 then none else some depth
    | .leftBrace => some (depth + 1)
    | .rightBrace => some (depth - 1)
    | _ => some depth

def macroCall (draft : Draft) : Draft :=
  draft.node .macroCall fun draft =>
    let draft := draft.bump
    if draft.atLineEnd then draft
    else
      draft.separated fun draft =>
        if draft.peek = .comma then draft else rawArgument draft

/-- A command that plays no part in block structure. -/
def storage? (dialect : Dialect) (draft : Draft) : Option Directive :=
  (directiveAt? dialect draft 0).filter fun directive =>
    directive.role == .plain

def fieldValue (dialect : Dialect) (draft : Draft) : Draft :=
  if draft.peek = .eq then Expression.read draft.bump
  else
    match storage? dialect draft with
    | some directive => command directive draft
    | none => draft

/-- A member of a block that declares members: a name with a value, with
storage or alone, or storage alone.  Commands of block structure stay
statements. -/
def field? (dialect : Dialect) (draft : Draft) : Option Draft :=
  match draft.peek with
  | .directiveKw =>
      (storage? dialect draft).map fun directive =>
        draft.node .field (command directive)
  | .ident =>
      some (draft.node .field fun draft => fieldValue dialect draft.bump)
  | _ => none

/-- A statement that its first token announces. -/
def announced (dialect : Dialect) (block? : Option BlockKind) (draft : Draft) :
    Draft × Option BlockEdge :=
  match draft.peek with
  | .directiveKw => directive dialect block? draft
  | .mnemonic => (instruction draft, none)
  | _ => (draft, none)

/-- A statement outside of member declarations. -/
def regular (dialect : Dialect) (block? : Option BlockKind) (draft : Draft) :
    Draft × Option BlockEdge :=
  match draft.peek with
  | .eol | .eof => (draft, none)
  | .directiveKw | .mnemonic => announced dialect block? draft
  | .ident =>
      (if isAssignment dialect draft then assignment draft
        else macroCall draft, none)
  | .dotIdent =>
      (draft.recover (.unknownDirective (Utf8.decode (draft.textAt 0)))
        fun _ => false, none)
  | kind =>
      if kind = .localIdent && isAssignment dialect draft then
        (assignment draft, none)
      else
        announced dialect block?
          (draft.recover .expectedStatement startsStatement)

/-- The statement of a line, if there is one, and its effect on the blocks. -/
def read (dialect : Dialect) (block? : Option BlockKind) (draft : Draft) :
    Draft × Option BlockEdge :=
  match if block?.any BlockKind.hasFields then field? dialect draft else none with
  | some draft => (draft, none)
  | none => regular dialect block? draft

end Statement
end Asm6502
