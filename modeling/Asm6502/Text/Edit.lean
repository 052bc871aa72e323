import Asm6502.Span
import Asm6502.Text.Point

/-!
# Edits

An edit says which bytes of a text were replaced and where the replacement
ends.  A list of edits applies in order, each in the coordinates that the ones
before it left behind.
-/

namespace Asm6502

structure Edit where
  start : Nat
  oldEnd : Nat
  newEnd : Nat
  startPoint : Point
  oldEndPoint : Point
  newEndPoint : Point
deriving DecidableEq, Repr

namespace Edit

def replace (text : Bytes) (span : Span) (replacement : Bytes) : Edit where
  start := span.start
  oldEnd := span.stop
  newEnd := span.start + replacement.length
  startPoint := Point.ofOffset text span.start
  oldEndPoint := Point.ofOffset text span.stop
  newEndPoint := (Point.ofOffset text span.start).behind replacement

/-- An edit of which only the offsets are known. -/
def ofOffsets (start oldEnd newEnd : Nat) : Edit :=
  ⟨start, oldEnd, newEnd, ⟨0, 0⟩, ⟨0, 0⟩, ⟨0, 0⟩⟩

/-- The text with a span replaced. -/
def splice (text : Bytes) (span : Span) (replacement : Bytes) : Bytes :=
  text.take span.start ++ replacement ++ text.drop span.stop

def delta (edit : Edit) : Int :=
  (edit.newEnd : Int) - edit.oldEnd

/-- The end of the replaced bytes, never before their start. -/
def oldBound (edit : Edit) : Nat :=
  max edit.oldEnd edit.start

/-- The end of the replacement, never before its start. -/
def newBound (edit : Edit) : Nat :=
  max edit.newEnd edit.start

end Edit
end Asm6502
