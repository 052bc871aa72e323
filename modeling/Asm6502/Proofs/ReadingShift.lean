import Asm6502.Parse.Reading
import Asm6502.Proofs.SketchForest

/-!
# Reading on

A reading that starts with no block open does not depend on what has been read
before, except that all its spans are further to the right.  Putting one reading
behind another therefore commutes with adding a line and with closing blocks.
-/

namespace Asm6502

theorem Span.shift_shift (first second : Nat) (span : Span) :
    (span.shift first).shift second = span.shift (second + first) := by
  simp [Span.shift, Nat.add_assoc, Nat.add_comm first second]

theorem Diagnostic.shift_shift (first second : Nat) (diagnostic : Diagnostic) :
    (diagnostic.shift first).shift second = diagnostic.shift (second + first) := by
  simp [Diagnostic.shift, Span.shift_shift]

/-- The open block of a text that stands further to the right. -/
def OpenBlock.shift (amount : Nat) (openBlock : OpenBlock) : OpenBlock :=
  { openBlock with keyword := openBlock.keyword.shift amount }

namespace Sketch

variable {τ : Type}

/-- A sketch behind finished trees, latest first, its tags changed. -/
def onto (base : List Tree) (change : τ → τ) (sketch : Sketch τ) : Sketch τ where
  settled := sketch.settled ++ base
  opened := sketch.opened.map fun entry => (change entry.1, entry.2)

variable (base : List Tree) (change : τ → τ)

theorem tag?_onto (sketch : Sketch τ) :
    (sketch.onto base change).tag? = sketch.tag?.map change := by
  cases opened : sketch.opened with
  | nil => simp [tag?, onto, opened]
  | cons entry outer => simp [tag?, onto, opened]

theorem add_onto (sketch : Sketch τ) (tree : Tree) :
    (sketch.onto base change).add tree = (sketch.add tree).onto base change := by
  cases opened : sketch.opened with
  | nil => simp [add, onto, opened]
  | cons entry outer => simp [add, onto, opened]

theorem leave_onto (sketch : Sketch τ) (kind : Kind) :
    (sketch.onto base change).leave kind = (sketch.leave kind).onto base change := by
  cases opened : sketch.opened with
  | nil => simp [leave, onto, opened]
  | cons entry outer =>
      obtain ⟨tag, children⟩ := entry
      cases children with
      | nil => simp [leave, onto, opened]
      | cons child children =>
          have outside := add_onto base change ({ sketch with opened := outer } : Sketch τ)
            (.node kind (child :: children).reverse)
          simpa [leave, onto, opened] using outside

theorem wrap_add_onto (sketch : Sketch τ) (tree : Tree) (tag : τ) :
    ((sketch.add tree).onto base change).wrap (change tag) =
      ((sketch.add tree).wrap tag).onto base change := by
  cases opened : sketch.opened with
  | nil => simp [add, wrap, onto, opened]
  | cons entry outer => simp [add, wrap, onto, opened]

end Sketch

namespace Reading

/-- No block is open. -/
def IsClosed (reading : Reading) : Prop :=
  reading.sketch.opened = []

/-- One reading behind another, which has no block open. -/
def followedBy (base reading : Reading) : Reading where
  offset := base.offset + reading.offset
  sketch := reading.sketch.onto base.sketch.settled (OpenBlock.shift base.offset)
  diagnostics :=
    reading.diagnostics.map (Diagnostic.shift base.offset) ++ base.diagnostics
  candidates := base.candidates
  splices := base.splices
  freshTokens := base.freshTokens + reading.freshTokens
  steps := reading.steps ++ base.steps

theorem followedBy_empty {base : Reading} (closed : base.IsClosed) :
    base.followedBy {} = base := by
  obtain ⟨offset, ⟨settled, opened⟩, diagnostics, candidates, splices, fresh, steps⟩ := base
  obtain rfl : opened = [] := closed
  simp [followedBy, Sketch.onto]

theorem block?_followedBy (base reading : Reading) :
    (base.followedBy reading).block? = reading.block? := by
  rw [block?, block?, followedBy, Sketch.tag?_onto, Option.map_map]
  rfl

theorem applyEdge_onto (settled : List Tree) (base offset : Nat)
    (sketch : Sketch OpenBlock) (tree : Tree) (edge? : Option BlockEdge) :
    applyEdge (base + offset)
        ((sketch.onto settled (OpenBlock.shift base)).add tree) edge? =
      (applyEdge offset (sketch.add tree) edge?).onto settled
        (OpenBlock.shift base) := by
  rw [Sketch.add_onto]
  cases edge? with
  | none => rfl
  | some edge =>
      cases edge with
      | opens block keyword =>
          have shifted : (⟨block, keyword.shift (base + offset)⟩ : OpenBlock) =
              OpenBlock.shift base ⟨block, keyword.shift offset⟩ := by
            simp [OpenBlock.shift, Span.shift_shift]
          simp only [applyEdge, shifted]
          exact Sketch.wrap_add_onto _ _ sketch tree _
      | closes =>
          simp only [applyEdge, Sketch.tag?_onto]
          cases (sketch.add tree).tag? with
          | none => rfl
          | some openBlock => exact Sketch.leave_onto _ _ _ _

theorem edgeSteps_onto (settled : List Tree) (base : Nat) (sketch : Sketch OpenBlock)
    (edge? : Option BlockEdge) :
    edgeSteps (sketch.onto settled (OpenBlock.shift base)) edge? = edgeSteps sketch edge? := by
  cases edge? with
  | none => rfl
  | some edge =>
      cases edge with
      | opens block keyword => rfl
      | closes =>
          simp only [edgeSteps, Sketch.tag?_onto]
          cases sketch.tag? <;> rfl

theorem addLine_followedBy (dialect : Dialect) (tokens : List Token)
    (base reading : Reading) :
    (base.followedBy reading).addLine dialect tokens =
      base.followedBy (reading.addLine dialect tokens) := by
  unfold addLine
  rw [block?_followedBy]
  simp only [followedBy, applyEdge_onto, edgeSteps_onto, Nat.add_assoc, List.map_append,
    List.map_reverse, List.map_map, List.append_assoc]
  congr 3
  apply List.map_congr_left
  intro diagnostic _
  simp [Diagnostic.shift_shift]

/-- Report the blocks that are open at the end of the text and close them. -/
def close (reading : Reading) : Reading :=
  closeBlocks reading.sketch.tags reading

theorem closeBlocks_followedBy (blocks : List OpenBlock) (base reading : Reading) :
    closeBlocks (blocks.map (OpenBlock.shift base.offset)) (base.followedBy reading) =
      base.followedBy (closeBlocks blocks reading) := by
  induction blocks generalizing reading with
  | nil => rfl
  | cons openBlock outer ih =>
      simp only [List.map_cons, closeBlocks]
      rw [← ih]
      congr 1
      simp only [followedBy, OpenBlock.shift, Sketch.leave_onto, List.map_cons,
        List.cons_append]
      rfl

theorem close_followedBy (base reading : Reading) :
    (base.followedBy reading).close = base.followedBy reading.close := by
  rw [close, close, ← closeBlocks_followedBy]
  congr 1
  simp [Sketch.tags, followedBy, Sketch.onto]

theorem close_of_isClosed {reading : Reading} (closed : reading.IsClosed) :
    reading.close = reading := by
  rw [close, Sketch.tags, closed]
  rfl

end Reading
end Asm6502
