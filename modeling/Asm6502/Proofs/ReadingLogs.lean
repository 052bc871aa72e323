import Asm6502.Proofs.DrawnLines
import Asm6502.Proofs.ReadingCourse
import Asm6502.Proofs.ResolvedLogs

/-!
# Logs of readings

While a text is read, its steps are taken down.  Between two lines they are stretches, with a
stack of blocks that are still open, each around the line that opened it; and what a builder
makes of them is what stands in the sketch.  So at the end of the text the log of the steps is
resolved without fail, and a builder makes the tree that has been read.
-/

namespace Asm6502

open Log (Stretch Step)

namespace Log

/-- What has been done, with the nodes that are still open, innermost first: what each was
opened around, and what is in it behind that. -/
structure Stack where
  settled : List Stretch := []
  opened : List (Stretch × List Stretch) := []

namespace Stack

open Stretch

def stepsOfOpened : List (Stretch × List Stretch) → List Step
  | [] => []
  | (first, parts) :: outer => stepsOfOpened outer ++ (first.steps ++ .precede :: stepsOfAll parts)

def steps (stack : Stack) : List Step :=
  stepsOfAll stack.settled ++ stepsOfOpened stack.opened

def addAll (stretches : List Stretch) (stack : Stack) : Stack :=
  match stack.opened with
  | [] => { stack with settled := stack.settled ++ stretches }
  | (first, parts) :: outer => { stack with opened := (first, parts ++ stretches) :: outer }

/-- Open a node around a stretch. -/
def openAround (first : Stretch) (stack : Stack) : Stack :=
  { stack with opened := (first, []) :: stack.opened }

def complete (kind : Kind) (stack : Stack) : Stack :=
  match stack.opened with
  | [] => stack
  | (first, parts) :: outer => { stack with opened := outer }.addAll [.around kind first parts]

theorem steps_addAll (stretches : List Stretch) (stack : Stack) :
    (stack.addAll stretches).steps = stack.steps ++ stepsOfAll stretches := by
  obtain ⟨settled, _ | ⟨⟨first, parts⟩, outer⟩⟩ := stack <;>
    simp [addAll, steps, stepsOfOpened]

theorem steps_openAround (first : Stretch) (stack : Stack) :
    (stack.openAround first).steps = stack.steps ++ (first.steps ++ [.precede]) := by
  simp [openAround, steps, stepsOfOpened, stepsOfAll]

theorem steps_complete {stack : Stack} (isOpen : stack.opened ≠ []) (kind : Kind) :
    (stack.complete kind).steps = stack.steps ++ [.complete kind] := by
  obtain ⟨settled, _ | ⟨⟨first, parts⟩, outer⟩⟩ := stack
  · contradiction
  · rw [complete, steps_addAll]
    simp [steps, stepsOfOpened, stepsOfAll, Stretch.steps]

variable {τ : Type} {stack : Stack} {sketch : Sketch τ} {held behind : List (Kind × Nat)}

/-- A builder makes of the steps what stands in a sketch, and holds some trivia back. -/
inductive Gives : Stack → Sketch τ → (held : List (Kind × Nat)) → Prop
  | settled {settled : List Stretch} {trees : List Tree} {held : List (Kind × Nat)} :
      placedAll settled [] = (trees, held) → (∀ stretch ∈ settled, stretch.Sound) →
        Gives ⟨settled, []⟩ ⟨trees.reverse, []⟩ held
  | opened {settled parts : List Stretch} {outer : List (Stretch × List Stretch)}
      {first : Stretch} {trees children : List Tree} {nodes : List (τ × List Tree)} {tag : τ}
      {held behind : List (Kind × Nat)} :
      Gives ⟨settled, outer⟩ ⟨trees, nodes⟩ held →
        placedAll (first :: parts) held = (children, behind) → first.isNode = true →
          (∀ stretch ∈ first :: parts, stretch.Sound) → children ≠ [] →
            Gives ⟨settled, (first, parts) :: outer⟩ ⟨trees, (tag, children.reverse) :: nodes⟩
              behind

theorem gives_empty : Gives {} ({} : Sketch τ) [] :=
  .settled rfl (by simp)

theorem addAll_settled (before trees : List Tree) :
    (⟨before.reverse, []⟩ : Sketch τ).addAll trees = ⟨(before ++ trees).reverse, []⟩ := by
  induction trees generalizing before with
  | nil => rw [List.append_nil, Sketch.addAll, List.foldl_nil]
  | cons tree rest ih =>
      have step := ih (before ++ [tree])
      rw [List.reverse_append, List.reverse_singleton, List.append_assoc] at step
      exact step

/-- Stretches behind the others go into the innermost open node. -/
theorem Gives.addAll (gives : Gives stack sketch held) {stretches : List Stretch}
    {trees : List Tree} (placed : placedAll stretches held = (trees, behind))
    (sound : ∀ stretch ∈ stretches, stretch.Sound) :
    Gives (stack.addAll stretches) (sketch.addAll trees) behind := by
  cases gives with
  | settled before soundBefore =>
      rw [addAll_settled]
      refine .settled ?_ (List.forall_mem_append.mpr ⟨soundBefore, sound⟩)
      rw [placedAll_append, Builder.Placement.andThen, before]
      simp only [placed]
  | opened outside inside isNode soundBefore nonempty =>
      rw [Sketch.addAll_of_opened rfl, ← List.reverse_append]
      refine .opened outside ?_ isNode ?_ (by simp [nonempty])
      · rw [← List.cons_append, placedAll_append, Builder.Placement.andThen, inside]
        simp only [placed]
      · rw [← List.cons_append]
        exact List.forall_mem_append.mpr ⟨soundBefore, sound⟩

theorem Gives.add (gives : Gives stack sketch held) {stretch : Stretch} {tree : Tree}
    (placed : stretch.placed held = ([tree], behind)) (sound : stretch.Sound) :
    Gives (stack.addAll [stretch]) (sketch.add tree) behind :=
  gives.addAll (by rw [placedAll_singleton, placed]) (by simpa using sound)

theorem Gives.openAround (gives : Gives stack sketch held) {first : Stretch} {tree : Tree}
    (placed : first.placed held = ([tree], behind)) (isNode : first.isNode = true)
    (sound : first.Sound) (tag : τ) :
    Gives (stack.openAround first) ((sketch.add tree).wrap tag) behind := by
  rw [Sketch.wrap_add, Sketch.enter, Sketch.add]
  have children : placedAll [first] held = ([tree], behind) := by
    rw [placedAll_singleton, placed]
  exact .opened gives children isNode (by simpa using sound) (List.cons_ne_nil _ _)

theorem Gives.complete (gives : Gives stack sketch []) (isOpen : sketch.opened ≠ [])
    {kind : Kind} (absorbs : kind.absorbsTrivia = true) (real : kind ≠ .tombstone) :
    stack.opened ≠ [] ∧ Gives (stack.complete kind) (sketch.leave kind) [] := by
  cases gives with
  | settled => contradiction
  | @opened settled parts outer first trees children nodes tag held _ outside inside isNode sound
      nonempty =>
      have left : Sketch.leave ⟨trees, (tag, children.reverse) :: nodes⟩ kind =
          Sketch.add ⟨trees, nodes⟩ (.node kind children) := by
        rw [← Sketch.leave_addAll_enter _ tag nonempty, Sketch.addAll_of_opened rfl,
          List.append_nil]
        rfl
      have placed : placed (.around kind first parts) held = ([.node kind children], []) := by
        rw [Stretch.placed, Builder.Placement.node_of_absorbs absorbs, ← placedAll, inside,
          Builder.leaves, List.map_nil, List.append_nil, Tree.around_of_ne_nil kind nonempty]
      refine ⟨List.cons_ne_nil _ _, ?_⟩
      rw [left]
      obtain ⟨firstSound, partsSound⟩ := List.forall_mem_cons.mp sound
      exact outside.add placed (.around real isNode firstSound partsSound)

theorem Gives.of_opened_nil (gives : Gives stack sketch held) (closed : sketch.opened = []) :
    stack.steps = stepsOfAll stack.settled ∧
      placedAll stack.settled [] = (sketch.trees, held) ∧
        ∀ stretch ∈ stack.settled, stretch.Sound := by
  cases gives with
  | settled placed sound =>
      refine ⟨by simp [steps, stepsOfOpened], ?_, sound⟩
      rw [placed, Sketch.trees, List.reverse_reverse]
  | opened => contradiction

end Stack
end Log

theorem BlockKind.absorbsTrivia_nodeKind (block : BlockKind) :
    block.nodeKind.absorbsTrivia = true := by
  cases block <;> rfl

theorem BlockKind.nodeKind_ne_tombstone (block : BlockKind) : block.nodeKind ≠ .tombstone := by
  cases block <;> decide

namespace Line

open Log.Stretch Log.Stack Reading

theorem gives_leave {stack : Log.Stack} {sketch : Sketch OpenBlock}
    (gives : stack.Gives sketch []) (isOpen : sketch.opened ≠ []) (block : BlockKind) :
    (stack.complete block.nodeKind).steps = stack.steps ++ [.complete block.nodeKind] ∧
      (stack.complete block.nodeKind).Gives (sketch.leave block.nodeKind) [] := by
  obtain ⟨stackOpen, completed⟩ := gives.complete isOpen
    (BlockKind.absorbsTrivia_nodeKind block) (BlockKind.nodeKind_ne_tombstone block)
  exact ⟨steps_complete stackOpen _, completed⟩

theorem Traced.exists_stack {line : Line} {front : List Stretch}
    {last : Stretch} (traced : Traced line front last) {stack : Log.Stack}
    {sketch : Sketch OpenBlock} (gives : stack.Gives sketch []) (offset : Nat)
    (edge? : Option BlockEdge) :
    ∃ next : Log.Stack,
      stack.steps ++ line.steps ++ (edgeSteps sketch edge?).reverse = next.steps ∧
        next.Gives (applyEdge offset (sketch.add line.tree) edge?) [] := by
  obtain ⟨held, placedFront, placedLast⟩ := traced.placed
  obtain ⟨frontSound, lastSound⟩ := List.forall_mem_append.mp traced.sound
  have lastSound := lastSound last (by simp)
  have inFront : (stack.addAll front).Gives sketch held := gives.addAll placedFront frontSound
  have lineSteps : line.steps = stepsOfAll front ++ last.steps := by
    simp [← traced.steps, stepsOfAll]
  have added : ∃ next : Log.Stack, next.steps = stack.steps ++ line.steps ∧
      next.Gives (sketch.add line.tree) [] := by
    refine ⟨_, ?_, inFront.add placedLast lastSound⟩
    simp [steps_addAll, lineSteps, stepsOfAll]
  obtain ⟨behind, stepsBehind, givesBehind⟩ := added
  cases edge? with
  | none => exact ⟨behind, by simp [edgeSteps, stepsBehind], givesBehind⟩
  | some edge =>
      cases edge with
      | opens block keyword =>
          -- The opening line becomes the first part of its block, which is opened around it.
          refine ⟨_, ?_, inFront.openAround placedLast traced.isNode lastSound _⟩
          simp [steps_openAround, steps_addAll, lineSteps, edgeSteps]
      | closes =>
          simp only [applyEdge, edgeSteps]
          have sameTag : (sketch.add line.tree).tag? = sketch.tag? := by
            rw [Sketch.tag?_eq_head?, Sketch.tag?_eq_head?, Sketch.tags_add]
          rw [sameTag]
          cases innermost : sketch.tag? with
          | none => exact ⟨behind, by simp [stepsBehind], givesBehind⟩
          | some openBlock =>
              have isOpen : (sketch.add line.tree).opened ≠ [] := by
                intro closed
                rw [← sameTag, Sketch.tag?, closed] at innermost
                contradiction
              obtain ⟨completed, gives⟩ := gives_leave givesBehind isOpen openBlock.block
              exact ⟨_, by simp [completed, stepsBehind], gives⟩

end Line

namespace Reading

open Log.Stretch Log.Stack Token

variable {dialect : Dialect} {stopAfter : Option Nat} {reading : Reading}

/-- A builder makes of the steps so far what has been read. -/
def IsTraced (reading : Reading) : Prop :=
  ∃ stack : Log.Stack, reading.steps.reverse = stack.steps ∧ stack.Gives reading.sketch []

theorem isTraced_start (candidates : List Candidate) :
    IsTraced { candidates := candidates } :=
  ⟨{}, rfl, gives_empty⟩

theorem IsTraced.addLine (traced : reading.IsTraced) {tokens : List Token}
    (scanned : ∀ token ∈ tokens, Scan.IsScanned token) (isLine : IsLine tokens) :
    (reading.addLine dialect tokens).IsTraced := by
  obtain ⟨stack, steps, gives⟩ := traced
  obtain ⟨front, last, line⟩ := Line.exists_traced dialect reading.block? scanned isLine
  have next : (reading.addLine dialect tokens).steps.reverse =
      stack.steps ++ (Line.read dialect reading.block? tokens).steps ++
        (edgeSteps reading.sketch (Line.read dialect reading.block? tokens).edge?).reverse := by
    simp [Reading.addLine, ← steps]
  have sketch : (reading.addLine dialect tokens).sketch =
      applyEdge reading.offset
        (reading.sketch.add (Line.read dialect reading.block? tokens).tree)
        (Line.read dialect reading.block? tokens).edge? := rfl
  rw [IsTraced, next, sketch]
  exact line.exists_stack gives _ _

theorem IsTraced.splice (traced : reading.IsTraced) (candidate : Candidate)
    (isNode : candidate.tree.isNode = true) (others : List Candidate) :
    (reading.splice candidate others).IsTraced := by
  obtain ⟨stack, steps, gives⟩ := traced
  have placed : Stretch.placed (.leaf candidate.tree) [] = ([candidate.tree], []) := by
    generalize candidate.tree = tree at isNode ⊢
    cases tree with
    | token => contradiction
    | node => rfl
  refine ⟨_, ?_, gives.add placed .leaf⟩
  simp [Reading.splice, steps, steps_addAll, stepsOfAll, Stretch.steps]

theorem IsTraced.closeBlocks (traced : reading.IsTraced) {blocks : List OpenBlock}
    (tagsEq : reading.sketch.tags = blocks) : (closeBlocks blocks reading).IsTraced := by
  induction blocks generalizing reading with
  | nil => exact traced
  | cons openBlock outer ih =>
      obtain ⟨stack, steps, gives⟩ := traced
      have isOpen : reading.sketch.opened ≠ [] := by
        intro closed
        rw [Sketch.tags, closed] at tagsEq
        contradiction
      obtain ⟨completed, left⟩ := Line.gives_leave gives isOpen openBlock.block
      refine ih ⟨_, ?_, left⟩ ?_
      · simp [steps, completed]
      · rw [Sketch.tags_leave, tagsEq, List.tail_cons]

theorem IsTraced.advance (traced : reading.IsTraced)
    (nodes : ∀ candidate ∈ reading.candidates, candidate.tree.isNode = true) {text : Bytes}
    (nonempty : text ≠ []) :
    (reading.advance dialect text).IsTraced ∧
      ∀ candidate ∈ (reading.advance dialect text).candidates, candidate.tree.isNode = true := by
  rw [Reading.advance]
  split
  · next candidate others found =>
      unfold reusable? at found
      split at found
      · obtain ⟨before, split, -⟩ := Candidate.next?_eq_some found
        have member : candidate ∈ reading.candidates := by simp [split]
        refine ⟨traced.splice candidate (nodes candidate member) others, ?_⟩
        intro other otherIn
        exact nodes other (by simp [split, show other ∈ others from otherIn])
      · contradiction
  · have lineIn : Scan.line dialect text ∈ lines (Scan.scan dialect text) := by
      rw [Scan.lines_scan dialect nonempty]
      exact List.mem_cons_self
    obtain ⟨isLine, scanned⟩ := Scan.lines_scan_shape dialect lineIn
    exact ⟨traced.addLine scanned isLine, nodes⟩

theorem isTraced_readFrom (traced : reading.IsTraced)
    (nodes : ∀ candidate ∈ reading.candidates, candidate.tree.isNode = true) (skip : Nat)
    (text : Bytes) : (readFrom dialect stopAfter skip text reading).IsTraced := by
  induction text generalizing skip reading with
  | nil => simpa [readFrom] using traced
  | cons byte rest ih =>
      cases skip with
      | succ skip => exact ih traced nodes skip
      | zero =>
          rw [readFrom]
          split
          · exact traced
          · obtain ⟨next, remain⟩ : (reading.advance dialect (byte :: rest)).IsTraced ∧
                ∀ candidate ∈ (reading.advance dialect (byte :: rest)).candidates,
                  candidate.tree.isNode = true :=
              traced.advance nodes (List.cons_ne_nil byte rest)
            exact ih next remain _

theorem isTraced_ofText (dialect : Dialect) (stopAfter : Option Nat)
    {candidates : List Candidate} (nodes : ∀ candidate ∈ candidates, candidate.tree.isNode = true)
    (text : Bytes) : (ofText dialect stopAfter candidates text).IsTraced :=
  (isTraced_readFrom (isTraced_start candidates) nodes 0 text).closeBlocks rfl

end Reading

namespace Log

open Builder (Plan)

/-- Operations do the steps, one for each.  They finish every node in turn, their log is
resolved, and a builder makes the tree.  Positions in the log have room in 32 bits if the log
is no longer than that. -/
structure Makes (steps : List Step) (root : Tree) (operations : List Operation) (log : Log)
    (plans : List Plan) : Prop where
  steps : operations.map Operation.step = steps
  disciplined : ∃ last?, Disciplined operations [] last?
  resolves : Resolves operations log plans
  built : Builder.build (fileCalls plans) = .ok root
  narrow : operations.length ≤ 4294967296 → operations.map Operation.narrowed = operations

open Stretch in
/-- Stretches make the tree that a builder places in a source file. -/
theorem exists_makes {stretches : List Stretch} {trees : List Tree}
    (sound : ∀ stretch ∈ stretches, stretch.Sound)
    (placed : placedAll stretches [] = (trees, [])) :
    ∃ operations log plans,
      Makes (stepsOfAll stretches) (.node .sourceFile trees) operations log plans := by
  have fresh : Assembles 0 [] [] := .nil
  obtain ⟨operations, plans, steps, calls, assembles⟩ := exists_assembles_of_forall
    (fun part member _ _ _ => (sound part member).recorded) fresh
  rw [List.nil_append, List.append_nil] at assembles
  obtain ⟨last?, disciplined, -⟩ := assembles.disciplined rfl .nil
  obtain ⟨latest, direct, again⟩ := disciplined.assembles
  obtain ⟨log, resolves⟩ := again.exists_resolves direct
  refine ⟨operations, log, latest.reverse, steps, ⟨last?, disciplined⟩, resolves, ?_,
    fun short => (disciplined.map_narrowed short).1⟩
  -- The log has one resolution, so its calls are those of the stretches.
  obtain ⟨same, logged, -⟩ := assembles.logged
  have recorded : record operations = some same := logged.recorded [] rfl
  obtain rfl := Option.some_inj.mp (resolves.recorded.symm.trans recorded)
  have resolved := resolves.resolved.symm.trans logged.resolve
  rw [List.reverse_reverse] at resolved
  obtain ⟨sameCalls, -⟩ := Prod.mk.inj (Option.some_inj.mp resolved)
  have built := build_callsOfAll stretches
  rw [placed, Builder.leaves, List.map_nil, List.append_nil] at built
  rw [sameCalls, fileCalls, calls]
  exact built

end Log

namespace Reading

/-- The log of a reading makes the tree that has been read. -/
theorem IsTraced.exists_makes {reading : Reading} (traced : reading.IsTraced)
    (closed : reading.IsClosed) :
    ∃ operations log plans,
      Log.Makes reading.steps.reverse (.node .sourceFile reading.sketch.trees) operations log
        plans := by
  obtain ⟨stack, steps, gives⟩ := traced
  obtain ⟨settled, placed, sound⟩ := gives.of_opened_nil closed
  rw [steps, settled]
  exact Log.exists_makes sound placed

end Reading
end Asm6502
