import Asm6502.Proofs.ParseShape
import Asm6502.Proofs.Reparse

/-!
# Edits that do not describe the change

A reparse trusts neither the edits nor the older parse.  A candidate is a whole
passage wherever it comes from, and it is only taken over where it fits into the
text, so the passages that are read tile the text whatever the edits say.  What a
passage reports stays within the passage wherever it is moved to.
-/

namespace Asm6502

/-- The span runs between two offsets. -/
structure Span.Between (start stop : Nat) (span : Span) : Prop where
  start_le : start ≤ span.start
  start_le_stop : span.start ≤ span.stop
  stop_le : span.stop ≤ stop

theorem Span.Within.shift {length : Nat} {span : Span} (within : span.Within length)
    (offset : Nat) : (span.shift offset).Between offset (offset + length) := by
  obtain ⟨ordered, inside⟩ := within
  constructor <;> simp only [Span.shift] <;> omega

/-- A span moves with what stands around it. -/
theorem Span.Between.moved {source length : Nat} {span : Span}
    (between : span.Between source (source + length)) (target : Nat) :
    (span.moved source target).Between target (target + length) := by
  obtain ⟨behind, ordered, inside⟩ := between
  constructor <;> simp only [Span.moved, Span.length] <;> omega

namespace Diagnostic

/-- The diagnostic points into one of consecutive trees, or at its end. -/
def LiesIn (trees : List Tree) (diagnostic : Diagnostic) : Prop :=
  ∃ before tree after, trees = before ++ tree :: after ∧
    diagnostic.span.Between (Tree.totalLength before)
      (Tree.totalLength before + tree.length)

variable {trees : List Tree} {diagnostic : Diagnostic}

theorem LiesIn.append (lies : diagnostic.LiesIn trees) (more : List Tree) :
    diagnostic.LiesIn (trees ++ more) := by
  obtain ⟨before, tree, after, rfl, between⟩ := lies
  exact ⟨before, tree, after ++ more, by simp, between⟩

theorem liesIn_concat {tree : Tree}
    (between : diagnostic.span.Between (Tree.totalLength trees)
      (Tree.totalLength trees + tree.length)) :
    diagnostic.LiesIn (trees ++ [tree]) :=
  ⟨trees, tree, [], rfl, between⟩

theorem LiesIn.within (lies : diagnostic.LiesIn trees) :
    diagnostic.span.Within (Tree.totalLength trees) := by
  obtain ⟨before, tree, after, rfl, between⟩ := lies
  obtain ⟨-, ordered, inside⟩ := between
  rw [Tree.totalLength_append, Tree.totalLength]
  exact ⟨ordered, by omega⟩

theorem LiesIn.of_owns {before after : List Tree} {tree : Tree}
    (lies : diagnostic.LiesIn (before ++ tree :: after))
    (positive : ∀ other ∈ before ++ tree :: after, 0 < other.length)
    (owned : Candidate.owns (Tree.totalLength (before ++ tree :: after))
      (Tree.totalLength before) tree diagnostic.start = true) :
    diagnostic.span.Between (Tree.totalLength before)
      (Tree.totalLength before + tree.length) := by
  obtain ⟨earlier, other, later, split, between⟩ := lies
  obtain ⟨behind, ordered, inside⟩ := between
  simp only [Candidate.owns, Bool.and_eq_true, Bool.or_eq_true, decide_eq_true_eq,
    beq_iff_eq] at owned
  simp only [start, Tree.totalLength_append, Tree.totalLength] at owned
  rcases List.append_eq_append_iff.mp split with
    ⟨gap, rfl, rest⟩ | ⟨gap, rfl, rest⟩
  · cases gap with
    | nil =>
        obtain ⟨rfl, -⟩ := List.cons.inj rest
        rw [List.append_nil] at behind inside
        exact ⟨behind, ordered, inside⟩
    | cons first gap =>
        -- The other tree stands behind, and the diagnostic at the very end.
        have afterEq : after = gap ++ other :: later := (List.cons.inj rest).2
        obtain rfl : tree = first := (List.cons.inj rest).1
        have otherPositive := positive other (by simp [afterEq])
        simp only [afterEq, Tree.totalLength_append, Tree.totalLength]
          at behind inside owned
        omega
  · cases gap with
    | nil =>
        obtain ⟨rfl, -⟩ := List.cons.inj rest
        rw [List.append_nil]
        exact ⟨behind, ordered, inside⟩
    | cons first gap =>
        -- The other tree stands in front, and the diagnostic between the two.
        obtain rfl : other = first := (List.cons.inj rest).1
        simp only [Tree.totalLength_append, Tree.totalLength] at behind inside owned ⊢
        constructor <;> omega

end Diagnostic

namespace Candidate

/-- A passage of some text, with what was reported in it. -/
structure IsSound (candidate : Candidate) : Prop where
  shape : Tree.IsPassage candidate.tree
  reported :
    ∀ diagnostic ∈ candidate.diagnostics,
      diagnostic.span.Between candidate.oldStart
        (candidate.oldStart + candidate.tree.length)

theorem IsSound.movedDiagnostics {candidate : Candidate} (sound : candidate.IsSound)
    {diagnostic : Diagnostic} (member : diagnostic ∈ candidate.movedDiagnostics) :
    diagnostic.span.Between candidate.start
      (candidate.start + candidate.tree.length) := by
  obtain ⟨original, originalIn, rfl⟩ := List.mem_map.mp member
  exact (sound.reported original originalIn).moved candidate.start

theorem isSound_afterEdit? {edit : Edit} {candidate moved : Candidate}
    (sound : candidate.IsSound) (left : candidate.afterEdit? edit = some moved) :
    moved.IsSound := by
  unfold afterEdit? at left
  split at left
  · obtain rfl := Option.some.inj left
    exact sound
  · split at left
    · obtain rfl := Option.some.inj left
      exact ⟨sound.shape, sound.reported⟩
    · contradiction

theorem isSound_of_edits {candidates : List Candidate}
    (sound : ∀ candidate ∈ candidates, candidate.IsSound) (edits : List Edit) :
    ∀ candidate ∈
        edits.foldl (fun left edit => left.filterMap (afterEdit? edit)) candidates,
      candidate.IsSound := by
  induction edits generalizing candidates with
  | nil => exact sound
  | cons edit edits ih =>
      apply ih
      intro moved member
      obtain ⟨candidate, old, left⟩ := List.mem_filterMap.mp member
      exact isSound_afterEdit? (sound candidate old) left

end Candidate

namespace Parse

/-- The root of the parse holds passages, and what is reported lies in them. -/
structure IsSound (parse : Parse) : Prop where
  root : parse.root = .node .sourceFile parse.root.children
  shape : ∀ tree ∈ parse.root.children, Tree.IsPassage tree
  reported : ∀ diagnostic ∈ parse.diagnostics, diagnostic.LiesIn parse.root.children

end Parse

theorem Candidate.isSound_of_mem_ofParse {old : Parse} (sound : old.IsSound)
    {candidate : Candidate} (member : candidate ∈ ofParse old) : candidate.IsSound := by
  obtain ⟨earlier, later, split, -⟩ := ofParse_split member
  obtain ⟨before, tree, after, trees, candidateEq, -⟩ := ofTrees_split split
  have length : old.root.length = Tree.totalLength old.root.children := by
    rw [sound.root]
    rfl
  rw [candidateEq, length, Nat.zero_add, trees]
  refine ⟨sound.shape tree (by simp [trees]), ?_⟩
  intro diagnostic owned
  obtain ⟨reported, owned⟩ := List.mem_filter.mp owned
  have lies := sound.reported diagnostic reported
  rw [trees] at lies
  apply lies.of_owns _ owned
  intro other otherIn
  exact (sound.shape other (trees ▸ otherIn)).length_pos

theorem Candidate.isSound_of_mem_plan {old : Parse} (sound : old.IsSound)
    (edits : List Edit) : ∀ candidate ∈ plan old edits, candidate.IsSound :=
  isSound_of_edits (fun _ => isSound_of_mem_ofParse sound) edits

namespace Reading

variable {dialect : Dialect} {stopAfter : Option Nat}

/-- Between passages, a reading holds the passages behind it and what was
reported in them. -/
structure IsSound (reading : Reading) : Prop where
  closed : reading.IsClosed
  offset : reading.offset = Tree.totalLength reading.sketch.trees
  shape : ∀ tree ∈ reading.sketch.trees, Tree.IsPassage tree
  reported :
    ∀ diagnostic ∈ reading.diagnostics, diagnostic.LiesIn reading.sketch.trees
  candidates : ∀ candidate ∈ reading.candidates, candidate.IsSound

theorem isSound_start {candidates : List Candidate}
    (sound : ∀ candidate ∈ candidates, candidate.IsSound) :
    IsSound { candidates := candidates } where
  closed := rfl
  offset := rfl
  shape := by simp [Sketch.trees]
  reported := by simp
  candidates := sound

theorem totalLength_concat (trees : List Tree) (tree : Tree) :
    Tree.totalLength (trees ++ [tree]) = Tree.totalLength trees + tree.length := by
  rw [Tree.totalLength_append, Tree.totalLength, Tree.totalLength, Nat.add_zero]

theorem IsSound.splice {text : Bytes} {reading : Reading} {candidate : Candidate}
    {others : List Candidate} (sound : reading.IsSound)
    (found : Candidate.next? reading.offset text reading.candidates =
      some (candidate, others)) :
    (reading.splice candidate others).IsSound := by
  obtain ⟨before, split, -, start, -, -⟩ := Candidate.next?_eq_some found
  have remain : ∀ other ∈ candidate :: others, other.IsSound := by
    intro other member
    apply sound.candidates
    rw [split]
    exact List.mem_append_right _ member
  have own := remain candidate (by simp)
  have trees : (reading.splice candidate others).sketch.trees =
      reading.sketch.trees ++ [candidate.tree] := trees_of_isClosed_add sound.closed _
  refine ⟨isClosed_splice sound.closed candidate others, ?_, ?_, ?_, ?_⟩
  · rw [trees, totalLength_concat, ← sound.offset]
    rfl
  · intro tree member
    rw [trees, List.mem_append, List.mem_singleton] at member
    rcases member with old | rfl
    · exact sound.shape tree old
    · exact own.shape
  · intro diagnostic member
    rw [trees]
    rcases List.mem_append.mp member with new | old
    · have between := own.movedDiagnostics (List.mem_reverse.mp new)
      rw [start, sound.offset] at between
      exact Diagnostic.liesIn_concat between
    · exact (sound.reported diagnostic old).append _
  · intro other member
    exact remain other (List.mem_cons_of_mem _ member)

theorem IsSound.followedBy {text : Bytes} {own : List (List Token)} {tree : Tree}
    {reading passage : Reading} (sound : reading.IsSound)
    (first : FirstPassage dialect text own tree passage) :
    (reading.followedBy passage).IsSound := by
  have trees : (reading.followedBy passage).sketch.trees =
      reading.sketch.trees ++ [tree] := by
    simp [Reading.followedBy, Sketch.onto, Sketch.trees, first.whole.sketch]
  refine ⟨isClosed_followedBy first.whole.isClosed reading, ?_, ?_, ?_, sound.candidates⟩
  · rw [trees, totalLength_concat, first.whole.length_tree, ← sound.offset]
    rfl
  · intro other member
    rw [trees, List.mem_append, List.mem_singleton] at member
    rcases member with old | rfl
    · exact sound.shape other old
    · exact first.whole.isPassage_tree
  · intro diagnostic member
    rw [trees]
    rcases List.mem_append.mp member with new | old
    · obtain ⟨original, originalIn, rfl⟩ := List.mem_map.mp new
      have between := (first.whole.reported original originalIn).1.shift reading.offset
      rw [sound.offset, ← first.whole.length_tree] at between
      rw [sound.offset]
      exact Diagnostic.liesIn_concat between
    · exact (sound.reported diagnostic old).append _

/-- Whatever the candidates stand for, a course reads passages up to the end of
the text, or to where it is stopped. -/
theorem isSound_of_course {text : Bytes} {reading last : Reading}
    (course : Course dialect stopAfter text reading last) (sound : reading.IsSound) :
    last.IsSound ∧ last.offset ≤ reading.offset + text.length ∧
      (last.isStopped stopAfter = false → last.offset = reading.offset + text.length) := by
  induction course with
  | ended reading => exact ⟨sound, by simp, by simp⟩
  | stopped stopped =>
      refine ⟨sound, Nat.le_add_right _ _, ?_⟩
      intro runs
      rw [stopped] at runs
      contradiction
  | @splice text reading last candidate others runs found course ih =>
      obtain ⟨-, -, -, -, -, fits⟩ := Candidate.next?_eq_some found
      obtain ⟨lastSound, inside, whole⟩ := ih (sound.splice found)
      simp only [Reading.splice, List.length_drop] at inside whole
      exact ⟨lastSound, by omega, fun runs => by rw [whole runs]; omega⟩
  | @passage text reading passage last others runs found cut course ih =>
      obtain ⟨own, tree, first⟩ := (firstPassage_of_cons cut).1
      have fits := first.offset_le
      obtain ⟨lastSound, inside, whole⟩ := ih (sound.followedBy first)
      simp only [Reading.followedBy, List.length_drop] at inside whole
      exact ⟨lastSound, by omega, fun runs => by rw [whole runs]; omega⟩

end Reading

namespace Parse

open Reading

variable {dialect : Dialect} {candidates : List Candidate}

theorem isSound_toParse {reading : Reading} (sound : reading.IsSound)
    (stopAfter : Option Nat) (text : Bytes) :
    (reading.toParse stopAfter text).IsSound where
  root := rfl
  shape := sound.shape
  reported diagnostic member := by
    rw [toParse, Diagnostic.mem_inOrder, List.mem_reverse] at member
    exact sound.reported diagnostic member

theorem covers_of_isSound {parse : Parse} (sound : parse.IsSound)
    (length : parse.root.length = parse.text.length)
    (ordered : Diagnostic.Ordered parse.diagnostics) : parse.Covers parse.text := by
  have total : Tree.totalLength parse.root.children = parse.text.length := by
    rw [← length, sound.root]
    rfl
  refine covers_of_passages sound.root sound.shape total rfl ordered ?_
  intro diagnostic member
  rw [← total]
  exact (sound.reported diagnostic member).within

/-- A parse of a text covers what was read of it, and all of it unless it was cut
short. -/
structure CoversPart (text : Bytes) (parse : Parse) : Prop where
  covers : parse.Covers parse.text
  prefix_text : parse.text <+: text
  whole : parse.cancelled = false → parse.text = text

theorem isSound_ofText (dialect : Dialect) (stopAfter : Option Nat)
    (sound : ∀ candidate ∈ candidates, candidate.IsSound) (text : Bytes) :
    ((Reading.ofText dialect stopAfter candidates text).toParse stopAfter text).IsSound :=
  isSound_toParse
    (isSound_of_course (course_ofText dialect stopAfter candidates text)
      (isSound_start sound)).1 stopAfter text

theorem coversPart_ofText (dialect : Dialect) (stopAfter : Option Nat)
    (sound : ∀ candidate ∈ candidates, candidate.IsSound) (text : Bytes) :
    ((Reading.ofText dialect stopAfter candidates text).toParse stopAfter text).CoversPart
      text := by
  obtain ⟨readingSound, inside, whole⟩ :=
    isSound_of_course (course_ofText dialect stopAfter candidates text)
      (isSound_start sound)
  generalize Reading.ofText dialect stopAfter candidates text = reading at *
  have parseSound := isSound_toParse readingSound stopAfter text
  have length : (reading.toParse stopAfter text).root.length = reading.offset := by
    rw [readingSound.offset]
    rfl
  simp only [Nat.zero_add] at inside whole
  refine ⟨covers_of_isSound parseSound ?_ (Diagnostic.ordered_inOrder _),
    List.take_prefix _ _, ?_⟩
  · rw [length]
    simp only [toParse] at length ⊢
    rw [length, List.length_take]
    omega
  · intro runs
    simp only [toParse] at length runs ⊢
    rw [length, whole runs, List.take_length]

end Parse

/-- The parses that calls of parse and reparse can give, whatever the edits say, those of
texts that are too long included. -/
inductive Reached : Parse → Prop
  | parsed {dialect : Dialect} {options : ParseOptions} {text : Bytes} {parse : Parse} :
      Parse.ofText? dialect options text = .ok parse → Reached parse
  | given (dialect : Dialect) (text : Bytes) : Reached (Parse.ofText dialect text)
  | reparsed {dialect : Dialect} {options : ParseOptions} {text : Bytes}
      {old parse : Parse} {edits : List Edit} {report : ReuseReport} :
      Reached old →
        Parse.reparse? dialect options old edits text = .ok (parse, report) →
          Reached parse
  | regiven {old : Parse} (dialect : Dialect) (edits : List Edit) (text : Bytes) :
      Reached old → Reached (Parse.reparse dialect old edits text)

namespace Parse

variable {old : Parse}

/-- A refused text leaves nothing to take over. -/
theorem plan_rejected (error : InputTooLarge) (edits : List Edit) :
    Candidate.plan (rejected error) edits = [] := by
  have none : Candidate.ofParse (rejected error) = [] := rfl
  rw [Candidate.plan, none]
  induction edits with
  | nil => rfl
  | cons edit edits ih => exact ih

theorem isSound_takeOver {edits : List Edit}
    (sound : ∀ candidate ∈ Candidate.plan old edits, candidate.IsSound)
    (dialect : Dialect) (stopAfter : Option Nat) (text : Bytes) :
    (takeOver dialect stopAfter old edits text).1.IsSound :=
  isSound_ofText dialect stopAfter sound text

theorem isSound_plan (either : old.IsSound ∨ ∃ error, old = rejected error)
    (edits : List Edit) : ∀ candidate ∈ Candidate.plan old edits, candidate.IsSound := by
  rcases either with sound | ⟨error, rfl⟩
  · exact Candidate.isSound_of_mem_plan sound edits
  · simp [plan_rejected]

/-- A parse is sound, or nothing of the text has been read. -/
theorem isSound_or_rejected {parse : Parse} (reached : Reached parse) :
    parse.IsSound ∨ ∃ error, parse = rejected error := by
  induction reached with
  | parsed parsed =>
      rw [ofText?_eq_ok parsed]
      exact .inl (isSound_ofText _ _ (by simp) _)
  | given dialect text =>
      rcases ofText_cases dialect text with ⟨-, read⟩ | ⟨-, refused⟩
      · rw [read]
        exact .inl (isSound_ofText _ _ (by simp) _)
      · exact .inr ⟨_, refused⟩
  | @reparsed dialect options text old parse edits report _ reparsed ih =>
      have same : parse = (takeOver dialect options.stopAfter old edits text).1 :=
        congrArg Prod.fst (reparse?_eq_ok reparsed)
      rw [same]
      exact .inl (isSound_takeOver (isSound_plan ih edits) dialect _ text)
  | @regiven old dialect edits text _ ih =>
      rcases Nat.lt_or_ge maxTextLength text.length with tooLong | fits
      · exact .inr ⟨_, reparse_of_lt tooLong⟩
      · rw [reparse_of_le fits]
        exact .inl (isSound_takeOver (isSound_plan ih edits) dialect _ text)

theorem isSound_of_mem_plan (reached : Reached old) (edits : List Edit) :
    ∀ candidate ∈ Candidate.plan old edits, candidate.IsSound :=
  isSound_plan (isSound_or_rejected reached) edits

/-- What is taken over and what is read cover the text, up to where reading stops. -/
structure Survives (dialect : Dialect) (stopAfter : Option Nat) (old : Parse)
    (edits : List Edit) (text : Bytes) (parse : Parse) : Prop where
  part : parse.CoversPart text
  whole : stopAfter = none → parse.Covers text
  comesOf : parse.ComesOf (Reading.ofText dialect stopAfter (Candidate.plan old edits) text)

theorem survives_takeOver (reached : Reached old) (dialect : Dialect) (stopAfter : Option Nat)
    (edits : List Edit) (text : Bytes) :
    Survives dialect stopAfter old edits text (takeOver dialect stopAfter old edits text).1 := by
  have sound := isSound_of_mem_plan reached edits
  have covered := coversPart_ofText dialect stopAfter sound text
  refine ⟨covered, fun runs => ?_, ?_⟩
  · have complete : (Parse.cancelled ((Reading.ofText dialect stopAfter
        (Candidate.plan old edits) text).toParse stopAfter text)) = false := by
      rw [runs]
      rfl
    have covers := covered.covers
    rwa [covered.whole complete] at covers
  · exact comesOf_toParse dialect stopAfter
      (fun candidate member => (sound candidate member).shape.isNode)
      (covered.covers.hasArena rfl)

/-- Whatever text the older parse is of and whatever the edits say, a text that is not too
long can be reparsed, and the result covers it.  On the way each line is read to its end
from wherever scanning starts again, no loop depends on its bound, the log of all steps
makes the tree, and no diagnostic that moves starts before the subtree it moves with. -/
theorem reparse_covers (reached : Reached old) (dialect : Dialect) (options : ParseOptions)
    (edits : List Edit) (text : Bytes) :
    (text.length ≤ options.limit →
      ∃ parse report, reparse? dialect options old edits text = .ok (parse, report) ∧
        Survives dialect options.stopAfter old edits text parse) ∧
      (options.limit < text.length →
        reparse? dialect options old edits text = .error ⟨text.length, options.limit⟩) ∧
      (text.length ≤ maxTextLength →
        (reparse dialect old edits text).Covers text ∧
          Survives dialect none old edits text (reparse dialect old edits text)) ∧
      (maxTextLength < text.length →
        reparse dialect old edits text = rejected ⟨text.length, maxTextLength⟩ ∧
          (reparse dialect old edits text).HasArena) ∧
      (∀ offset, ∀ line ∈ Token.lines (Scan.scan dialect (text.drop offset)),
        ∀ block?, Line.RunsThrough dialect block? line) ∧
      (∀ draft : Draft, draft.role = .plain → draft.LoopsEnd) ∧
      ∀ candidate ∈ Candidate.plan old edits,
        ∀ diagnostic ∈ candidate.diagnostics,
          diagnostic.span.Between candidate.oldStart
            (candidate.oldStart + candidate.tree.length) := by
  refine ⟨fun fits => ?_, reparse?_of_lt, fun fits => ?_, fun tooLong => ?_, ?_,
    fun _ plain => Draft.loopsEnd plain, ?_⟩
  · exact ⟨_, _, reparse?_of_le fits, survives_takeOver reached dialect _ edits text⟩
  · have survives := survives_takeOver reached dialect none edits text
    rw [reparse_of_le fits]
    exact ⟨survives.whole rfl, survives⟩
  · have refused : reparse dialect old edits text = rejected ⟨text.length, maxTextLength⟩ :=
      reparse_of_lt tooLong
    rw [refused]
    exact ⟨rfl, (covers_rejected _).hasArena rfl⟩
  · exact fun _ _ member block? => Line.runsThrough_of_mem_lines dialect block? member
  · exact fun candidate member => (isSound_of_mem_plan reached edits candidate member).reported

/-- The line `a` is kept by an edit far behind it, though nothing of it is left in
the new text. -/
theorem reparse_covers_other_text :
    (∃ parse report,
      reparse? .stock {} (ofText .stock [0x61, 0x0a]) [Edit.ofOffsets 9 2 70]
          [0x7a, 0x7a, 0x7a] = .ok (parse, report) ∧
        parse.Covers [0x7a, 0x7a, 0x7a]) ∧
      (reparse .stock (ofText .stock [0x61, 0x0a]) [Edit.ofOffsets 9 2 70]
        [0x7a, 0x7a, 0x7a]).Covers [0x7a, 0x7a, 0x7a] := by
  obtain ⟨within, -, total, -⟩ :=
    reparse_covers (.given .stock [0x61, 0x0a]) .stock {}
      [Edit.ofOffsets 9 2 70] [0x7a, 0x7a, 0x7a]
  obtain ⟨parse, report, done, survives⟩ := within (by decide)
  exact ⟨⟨parse, report, done, survives.whole rfl⟩, (total (by decide)).1⟩

end Parse
end Asm6502
