import Asm6502.Parse

/-!
# Chunked input

A source can serve its text in chunks.  A read at an offset gives the rest of
the chunk that holds it; an empty answer ends the input.
-/

namespace Asm6502
namespace Chunks

/-- The rest of the chunk that holds an offset; empty chunks are passed over. -/
def readAt : List Bytes → (offset : Nat) → Bytes
  | [], _ => []
  | chunk :: rest, offset =>
      if offset < chunk.length then chunk.drop offset
      else readAt rest (offset - chunk.length)

/-- Keep reading behind what has been read, and fail as soon as that is longer
than the limit. -/
def readOn (limit? : Option Nat) (source : Nat → Bytes) :
    (fuel : Nat) → (text : Bytes) → Except InputTooLarge Bytes
  | 0, text => .ok text
  | fuel + 1, text =>
      match source text.length with
      | [] => .ok text
      | chunk =>
          let longer := text ++ chunk
          match limit? with
          | none => readOn limit? source fuel longer
          | some limit =>
              if limit < longer.length then .error ⟨longer.length, limit⟩
              else readOn limit? source fuel longer

/-- Read a source to its end; every read uses up a chunk. -/
def readAll (limit? : Option Nat) (chunks : List Bytes) :
    Except InputTooLarge Bytes :=
  readOn limit? (readAt chunks) chunks.length []

end Chunks
end Asm6502
