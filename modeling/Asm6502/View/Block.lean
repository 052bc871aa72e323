import Asm6502.View.Statement

/-!
# Views of blocks

A block begins with the line that opened it.  It is terminated if its last line
is a closing command; what lies between is its body.
-/

namespace Asm6502
namespace View
namespace Block

def opener? (block : Place) : Option Place :=
  block.nodes.head?.filter fun line => line.kind == .line

def directive? (block : Place) : Option Place :=
  (opener? block).bind Line.directive?

/-- A command word that closes blocks; `.end` alone ends the whole source. -/
def isCloser (word : Bytes) : Bool :=
  (Bytes.ascii ".end").isPrefixOf word && word != Bytes.ascii ".end"

/-- The closing line: the last one, if it is not the opening line and its
command closes blocks. -/
def closer? (source : Bytes) (block : Place) : Option Place := do
  let line ← block.nodes.getLast?
  let opener ← opener? block
  let keyword ← (Line.directive? line).bind Directive.keyword?
  if line.kind == .line && line.index != opener.index &&
      isCloser (keyword.lowerBytes source) then
    some line
  else none

def isTerminated (source : Bytes) (block : Place) : Bool :=
  (closer? source block).isSome

/-- Lines and nested blocks between the opening and the closing line. -/
def body (source : Bytes) (block : Place) : List Place :=
  let closerIndex? := (closer? source block).map Place.index
  (block.nodes.drop 1).filter fun node => some node.index != closerIndex?

def name? (block : Place) : Option Place := do
  let argument ← (directive? block).bind fun directive =>
    (Directive.arguments directive).head?
  if argument.kind == .identifier then argument.firstToken? else none

/-- A block other than a macro definition. -/
def isPlainKind (kind : Kind) : Bool :=
  kind.isBlock && kind != .macroDefinition

/-- Every block below a place, macro definitions apart. -/
def all (root : Place) : List Place :=
  root.preorder.filter fun place => place.isNode && isPlainKind place.kind

end Block

namespace MacroDefinition

/-- The command that names the macro and its parameters. -/
def header? (definition : Place) : Option Place :=
  Block.directive? definition

def name? (definition : Place) : Option Place :=
  (header? definition).bind Directive.declaredName?

def parameters (definition : Place) : List Place :=
  match header? definition with
  | none => []
  | some header =>
      (header.tokenChildren.filter fun token =>
        token.kind == .ident || token.kind == .register ||
          token.kind == .mnemonic).drop 1

def all (root : Place) : List Place :=
  root.preorder.filter fun place =>
    place.isNode && place.kind == .macroDefinition

end MacroDefinition
end View
end Asm6502
