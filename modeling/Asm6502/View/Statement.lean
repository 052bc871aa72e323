import Asm6502.View.Operand

/-!
# Views of lines and statements

What stands on a line: labels, a statement and a comment, each read off the
children of the line's node.
-/

namespace Asm6502
namespace View

/-- What a line does after its labels. -/
inductive StatementForm where
  | instruction | directive | symbolAssignment | macroCall | field
deriving DecidableEq, Repr

/-- The form of a statement node of the given kind, none for other kinds. -/
def StatementForm.ofKind? : Kind → Option StatementForm
  | .instruction => some .instruction
  | .directive => some .directive
  | .symbolAssignment => some .symbolAssignment
  | .macroCall => some .macroCall
  | .field => some .field
  | _ => none

namespace Line

def labels (line : Place) : List Place :=
  line.nodesOf (· == .label)

def statement? (line : Place) : Option Place :=
  line.nodeOf? fun kind => (StatementForm.ofKind? kind).isSome

def comment? (line : Place) : Option Place :=
  line.tokenOf? [.comment]

def directive? (line : Place) : Option Place :=
  (statement? line).filter fun statement => statement.kind == .directive

/-- Every line below a place, those inside blocks included. -/
def all (root : Place) : List Place :=
  root.preorder.filter fun place => place.isNode && place.kind == .line

end Line

namespace Label

def name? (label : Place) : Option Place :=
  label.tokenOf? [.ident, .localIdent]

def isLocal (label : Place) : Bool :=
  (name? label).any fun name => name.kind == .localIdent

def isUnnamed (label : Place) : Bool :=
  (name? label).isNone

end Label

namespace Directive

def keyword? (directive : Place) : Option Place :=
  directive.tokenOf? [.directiveKw]

/-- The symbol that a command declares. -/
def declaredName? (directive : Place) : Option Place :=
  directive.tokenOf? [.ident]

def arguments (directive : Place) : List Place :=
  Expression.operands directive

end Directive

namespace SymbolAssignment

def name? (assignment : Place) : Option Place :=
  assignment.tokenOf? [.ident, .localIdent]

def isLabel (assignment : Place) : Bool :=
  (assignment.tokenOf? [.colonEq]).isSome

def isVariable (assignment : Place) : Bool :=
  (assignment.tokenOf? [.directiveKw]).isSome

def value? (assignment : Place) : Option Place :=
  Expression.first? assignment

end SymbolAssignment

namespace MacroCall

def name? (call : Place) : Option Place :=
  call.tokenOf? [.ident]

def arguments (call : Place) : List Place :=
  call.nodesOf (· == .macroArg)

def isBraced (argument : Place) : Bool :=
  argument.firstToken?.any fun token => token.kind == .leftBrace

end MacroCall

namespace Field

def name? (field : Place) : Option Place :=
  field.tokenOf? [.ident]

/-- The storage command of a member. -/
def storage? (field : Place) : Option Place :=
  field.nodeOf? (· == .directive)

def value? (field : Place) : Option Place :=
  Expression.first? field

end Field
end View
end Asm6502
