import Asm6502.Parse
import Asm6502.Text.Quoted
import Asm6502.Text.Utf8
import Asm6502.Tree.Place
import Asm6502.Tree.Spelled

/-!
# Outlines of trees

A tree is written one element a line, in the order of a walk.  The flat form
gives depths and spans; the indented form also shows the text of tokens, and a
parse adds its diagnostics.
-/

namespace Asm6502
namespace Spelled

/-- The text that an element covers, undecodable bytes replaced. -/
def text (element : Spelled) : String :=
  Utf8.decode element.bytes

def flatLine (depth : Nat) (element : Spelled) : String :=
  toString depth ++ " " ++ element.render

/-- The kind and the span indented by the depth, tokens with their text. -/
def outlineLine (depth : Nat) (element : Spelled) : String :=
  let indented :=
    String.ofList (List.replicate (2 * depth) ' ') ++ element.render
  if element.isToken then indented ++ " " ++ Quoted.render element.text
  else indented

end Spelled

namespace Place

def bytes (text : Bytes) (place : Place) : Bytes :=
  Bytes.slice text place.start place.stop

/-- The text that a place covers, undecodable bytes replaced. -/
def text (source : Bytes) (place : Place) : String :=
  Utf8.decode (place.bytes source)

/-- The element at a place, over the source that the whole tree covers. -/
def spelled (source : Bytes) (place : Place) : Spelled :=
  let start := place.start
  (place.focus.spell start (source.drop start)).1

/-- One line for each element: its depth below the place, kind and span. -/
def flatLines (place : Place) : List String :=
  (place.spelled []).listed.map fun (depth, element) => element.flatLine depth

def outlineLines (source : Bytes) (place : Place) : List String :=
  (place.spelled source).listed.map fun (depth, element) =>
    element.outlineLine depth

end Place

namespace Parse

def place (parse : Parse) : Place :=
  ⟨parse.root, []⟩

def dumpLines (parse : Parse) : List String :=
  parse.place.outlineLines parse.text ++
    "Errors:" ::
      parse.diagnostics.map fun diagnostic =>
        "  " ++ diagnostic.span.render ++ " " ++ diagnostic.message

end Parse
end Asm6502
