import Asm6502.Line.Expression

/-!
# Arguments of control commands

One rule for each shape of arguments.  Whatever a rule leaves on the line is
reported when the line ends.
-/

namespace Asm6502
namespace Arguments

/-- An expression, possibly followed by a colon and an address size. -/
def sizedExpression (draft : Draft) : Draft :=
  let draft := Expression.read draft
  if draft.peek = .colon then draft.bump.expect .ident .expectedAddressSize
  else draft

def expressions (draft : Draft) : Draft :=
  if draft.atLineEnd then draft else draft.separated sizedExpression

def sign (draft : Draft) : Draft :=
  match draft.peek with
  | .plus | .minus => draft.bump
  | _ => draft

def words (draft : Draft) : Draft :=
  if draft.atLineEnd then draft
  else draft.separated fun draft => sign (draft.expect .ident .expectedName)

def toggle (draft : Draft) : Draft :=
  if draft.peek = .ident then draft.bump else sign draft

/-- Parameters are plain words, even where they spell a register or a
mnemonic. -/
def parameter (draft : Draft) : Draft :=
  match draft.peek with
  | .ident | .register | .mnemonic => draft.bump
  | _ => draft.error .expectedParameterName

def macroHeader (draft : Draft) : Draft :=
  if draft.peek = .ident then
    let draft := draft.bump
    if draft.atLineEnd then draft else draft.separated parameter
  else draft.error .expectedMacroName

def parameters (draft : Draft) : Draft :=
  let draft := draft.bump
  let draft :=
    if draft.peek = .rightParen then draft else draft.separated parameter
  draft.expect .rightParen .expectedClosingParen

def replacement (draft : Draft) : Draft :=
  if draft.atLineEnd then draft
  else draft.node .macroArg (Draft.takeUntil fun _ => false)

/-- A name, possibly with parameters that follow it without a space, and its
replacement. -/
def definition (draft : Draft) : Draft :=
  if draft.peek = .ident then
    let draft := draft.bump
    let opensList := draft.rest.head?.any fun token => token.kind == .leftParen
    replacement (if opensList then parameters draft else draft)
  else draft.error .expectedName

/-- The arguments of a command, by their shape. -/
def read : ArgumentShape → Draft → Draft
  | .none, draft => draft
  | .expressions, draft => expressions draft
  | .assignment, draft => expressions draft
  | .toggle, draft => toggle draft
  | .words, draft => words draft
  | .macroHeader, draft => macroHeader draft
  | .define, draft => definition draft

end Arguments
end Asm6502
