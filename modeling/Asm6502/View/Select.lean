import Asm6502.Tree.Outline

/-!
# Selecting children

Typed views read a node by picking children of certain kinds, whatever else
stands between them.
-/

namespace Asm6502
namespace Place

def tokenOf? (kinds : List Kind) (place : Place) : Option Place :=
  place.tokenChildren.find? fun child => kinds.contains child.kind

def nodesOf (accepts : Kind → Bool) (place : Place) : List Place :=
  place.nodes.filter fun child => accepts child.kind

def nodeOf? (accepts : Kind → Bool) (place : Place) : Option Place :=
  place.nodes.find? fun child => accepts child.kind

def lowerBytes (source : Bytes) (place : Place) : Bytes :=
  Bytes.lower (place.bytes source)

def lowerText (source : Bytes) (place : Place) : String :=
  Utf8.decode (place.lowerBytes source)

def reads (source : Bytes) (place : Place) (word : String) : Bool :=
  place.lowerBytes source == Bytes.ascii word

end Place
end Asm6502
