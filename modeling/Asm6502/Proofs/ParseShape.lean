import Asm6502.Proofs.ArenaPlaces
import Asm6502.Proofs.LoopBounds
import Asm6502.Proofs.ReadingLogs
import Asm6502.Proofs.RefusedTexts
import Asm6502.Proofs.RootShape
import Asm6502.Proofs.Snapshots

/-!
# The shape of a parse

Parsing a text loses nothing and follows its lines: the leaves are the tokens of
the text, at the top stand lines and blocks, and every line but the last has its
end as its last child.
-/

namespace Asm6502

theorem Bytes.slice_eq_take {text : Bytes} (start length : Nat) :
    text.slice start (start + length) = (text.drop start).take length := by
  rw [slice, Nat.add_sub_cancel_left]

namespace Tree

theorem slices_spansFrom {text : Bytes} {start : Nat} {tokens : List Token}
    (tiled : text.drop start = tokens.flatMap Token.text) :
    (spansFrom start (tokens.map Token.pair)).map
        (fun leaf => text.slice leaf.2.start leaf.2.stop) =
      tokens.map Token.text := by
  induction tokens generalizing start with
  | nil => rfl
  | cons token rest ih =>
      rw [List.flatMap_cons] at tiled
      have behind : text.drop (start + token.length) = rest.flatMap Token.text := by
        rw [← List.drop_drop, tiled, Token.length, List.drop_left]
      have here : text.slice start (start + token.length) = token.text := by
        rw [Bytes.slice_eq_take, tiled, Token.length, List.take_left]
      rw [List.map_cons, spansFrom, List.map_cons, List.map_cons]
      exact congr (congrArg _ here) (ih behind)

end Tree

namespace Reading

open Token

variable {dialect : Dialect}

theorem Holds.append {first second : List (List Token)} {trees others : List Tree}
    (holds : Holds first trees) (next : Holds second others) :
    Holds (first ++ second) (trees ++ others) where
  leaves := by simp [holds.leaves, next.leaves]
  lines := by simp [holds.lines, next.lines]
  shape tree member := by
    rcases List.mem_append.mp member with early | late
    · exact holds.shape tree early
    · exact next.shape tree late

theorem holds_passages (dialect : Dialect) (text : Bytes) :
    Holds (lines (Scan.scan dialect text)) (treesOf (passages dialect text)) := by
  induction text using passagesInduct dialect with
  | nil => exact ⟨rfl, rfl, nofun⟩
  | cons text own tree passage first cut ih =>
      have here := first.whole.holds
      rw [first.whole.sketch] at here
      have alone : treesOf (passage :: passages dialect (text.drop passage.offset)) =
          [tree] ++ treesOf (passages dialect (text.drop passage.offset)) := by
        simp [treesOf, first.whole.sketch, Sketch.trees]
      rw [first.lines, cut, alone]
      exact here.append ih

theorem within_of_mem_reportFrom {text : Bytes} {items others : List Reading}
    (cut : passages dialect text = items ++ others) {offset : Nat}
    {diagnostic : Diagnostic} (member : diagnostic ∈ reportFrom offset items) :
    diagnostic.span.Within (offset + totalOffset items) := by
  induction items generalizing text offset with
  | nil => contradiction
  | cons passage items ih =>
      obtain ⟨⟨own, tree, first⟩, rest⟩ := firstPassage_of_cons cut
      rcases List.mem_append.mp member with here | later
      · obtain ⟨original, inPassage, rfl⟩ := List.mem_map.mp here
        obtain ⟨⟨ordered, inside⟩, -⟩ :=
          first.whole.reported original (List.mem_reverse.mp inPassage)
        simp only [Diagnostic.shift, Span.shift, totalOffset]
        exact ⟨by simp only; omega, by simp only; omega⟩
      · obtain ⟨ordered, inside⟩ := ih rest.symm later
        rw [totalOffset]
        exact ⟨ordered, by omega⟩

theorem snapshotOf_passages (dialect : Dialect) (text : Bytes) :
    Parse.entire dialect text = snapshotOf text (passages dialect text) false := by
  obtain ⟨items, others, cut, whole, same⟩ : IsSnapshot dialect text
      (Parse.entire dialect text) := isSnapshot_ofText none (by simp)
  have complete : (Parse.entire dialect text).cancelled = false := rfl
  obtain rfl := whole complete
  rw [List.append_nil] at cut
  rw [same, complete, cut]

theorem isClosed_ofText (dialect : Dialect) (text : Bytes) :
    (ofText dialect none [] text).IsClosed :=
  isClosed_close _

end Reading

/-- A line is read by moves, which close whatever they open, until nothing is left
of it. -/
structure Line.RunsThrough (dialect : Dialect) (block? : Option BlockKind)
    (tokens : List Token) : Prop where
  moves : Draft.Moves { rest := tokens } (Line.stated dialect block? tokens)
  rest : (Line.finish (Line.stated dialect block? tokens)).rest = []
  opened : (Line.finish (Line.stated dialect block? tokens)).sketch.opened = []

theorem Line.runsThrough_of_mem_lines (dialect : Dialect) (block? : Option BlockKind)
    {text : Bytes} {line : List Token}
    (member : line ∈ Token.lines (Scan.scan dialect text)) :
    RunsThrough dialect block? line := by
  obtain ⟨isLine, scanned⟩ := Scan.lines_scan_shape dialect member
  have moves := moves_stated dialect block? line
  have finished := finished_stated dialect block? scanned isLine
  refine ⟨moves, finished.rest, ?_⟩
  have noTags := finished.tags.trans moves.tags
  exact List.map_eq_nil_iff.mp noTags

namespace Parse

open Reading Place

/-- A parse of the whole text: the leaves are the tokens of the text, and lines
do not nest and end where the text has line ends. -/
structure FollowsLines (dialect : Dialect) (text : Bytes) (parse : Parse) : Prop
    extends Covers text parse where
  complete : parse.cancelled = false
  tokens :
    (Place.tokens ⟨parse.root, []⟩).map (fun leaf => (leaf.kind, leaf.span)) =
      Tree.spansFrom 0 ((Scan.scan dialect text).map Token.pair)
  texts :
    (Place.tokens ⟨parse.root, []⟩).map
        (fun leaf => text.slice leaf.span.start leaf.span.stop) =
      (Scan.scan dialect text).map Token.text
  joined : (Scan.scan dialect text).flatMap Token.text = text
  lineEnds :
    ∀ place ∈ preorder ⟨parse.root, []⟩, place.kind = .eol →
      place.parent?.map kind = some .line ∧ place.next? = none
  single :
    ∀ line ∈ Place.lines ⟨parse.root, []⟩,
      line.tokens.countP (fun leaf => leaf.kind == .eol) ≤ 1
  ended :
    ∀ line ∈ (Place.lines ⟨parse.root, []⟩).dropLast,
      line.children.getLast?.map kind = some .eol
  flat :
    ∀ line ∈ Place.lines ⟨parse.root, []⟩,
      ∀ outer ∈ enclosing line.focus line.above, outer.kind ≠ .line

theorem map_kind_tokens (place : Place) :
    place.tokens.map kind = place.focus.leaves.map Prod.fst := by
  rw [← Tree.map_fst_spansFrom place.start, ← map_tokens, List.map_map]
  rfl

theorem countP_tokens (place : Place) (holds : Kind → Bool) :
    place.tokens.countP (fun leaf => holds leaf.kind) =
      place.focus.leaves.countP (fun leaf => holds leaf.1) := by
  calc
    place.tokens.countP (fun leaf => holds leaf.kind) =
        (place.tokens.map kind).countP holds := by
      rw [List.countP_map]
      rfl
    _ = place.focus.leaves.countP (fun leaf => holds leaf.1) := by
      rw [map_kind_tokens, List.countP_map]
      rfl

/-- Every line but the last has its end. -/
theorem ended_of_mem_dropLast {trees : List Tree} {tokens : List Token}
    (holds : Holds (Token.lines tokens) trees) {tree : Tree}
    (isLine : Tree.IsLine tree) (member : tree ∈ (Tree.allLineNodes trees).dropLast) :
    tree.children.getLast?.map Tree.kind = some .eol := by
  have leavesIn : tree.leaves ∈ (Token.lines tokens).dropLast.map (List.map Token.pair) := by
    rw [List.map_dropLast, ← holds.lines, ← List.map_dropLast]
    exact List.mem_map_of_mem member
  obtain ⟨line, lineIn, leaves⟩ := List.mem_map.mp leavesIn
  obtain ⟨before, after, cut, followed⟩ := split_of_mem_dropLast lineIn
  obtain ⟨body, last, rfl, isEol⟩ := (Token.lines_shape cut).2 followed
  apply isLine.getLast?_children
  rw [← leaves, List.map_append, List.map_singleton, Token.pair, isEol]

theorem leaves_entire (dialect : Dialect) (text : Bytes) :
    (entire dialect text).root.leaves = (Scan.scan dialect text).map Token.pair := by
  rw [snapshotOf_passages, snapshotOf, Tree.leaves, (holds_passages dialect text).leaves,
    Token.flatten_lines]

theorem map_kind_tokens_entire (dialect : Dialect) (text : Bytes) :
    (Place.tokens ⟨(entire dialect text).root, []⟩).map kind =
      (Scan.scan dialect text).map Token.kind := by
  have kinds := congrArg (List.map Prod.fst) (map_tokens ⟨(entire dialect text).root, []⟩)
  rw [Tree.map_fst_spansFrom, leaves_entire, List.map_map, List.map_map] at kinds
  exact kinds

theorem covers_entire (dialect : Dialect) (text : Bytes) :
    (entire dialect text).Covers text := by
  have holds := holds_passages dialect text
  have length : Tree.totalLength (treesOf (passages dialect text)) = text.length := by
    rw [totalLength_treesOf fun _ member => member, totalOffset_passages]
  rw [snapshotOf_passages]
  refine covers_of_passages rfl holds.shape length ?_ (Diagnostic.ordered_inOrder _) ?_
  · rw [snapshotOf, totalOffset_passages, List.take_length]
  · intro diagnostic member
    have within := within_of_mem_reportFrom (List.append_nil _).symm
      (Diagnostic.mem_inOrder.mp member)
    rwa [Nat.zero_add, totalOffset_passages] at within

theorem covers_rejected (error : InputTooLarge) : (rejected error).Covers [] where
  textEq := rfl
  rootKind := rfl
  rootSpan := rfl
  leaves := rfl
  nodes place member _ := by
    obtain rfl := List.mem_singleton.mp member
    rfl
  nonempty _ member _ := List.mem_singleton.mp member
  top := nofun
  ordered := List.pairwise_singleton _ _
  within diagnostic member := by
    obtain rfl := List.mem_singleton.mp member
    exact ⟨Nat.le_refl _, Nat.le_refl _⟩

theorem text_entire (dialect : Dialect) (text : Bytes) : (entire dialect text).text = text :=
  (covers_entire dialect text).textEq

theorem covers_ofText (dialect : Dialect) (text : Bytes) :
    (ofText dialect text).Covers (ofText dialect text).text := by
  rcases ofText_cases dialect text with ⟨-, read⟩ | ⟨-, refused⟩
  · rw [read, text_entire]
    exact covers_entire dialect text
  · rw [refused]
    exact covers_rejected _

theorem followsLines_entire (dialect : Dialect) (text : Bytes) :
    (entire dialect text).FollowsLines dialect text := by
  have covers := covers_entire dialect text
  have holds := holds_passages dialect text
  have stands := stands_of_mem_preorder holds.shape
  have joined : (Scan.scan dialect text).flatMap Token.text = text :=
    Scan.flatMap_text_scanFrom dialect true text
  rw [snapshotOf_passages] at covers ⊢
  have tokens : (Place.tokens
      ⟨(snapshotOf text (passages dialect text) false).root, []⟩).map
        (fun leaf => (leaf.kind, leaf.span)) =
      Tree.spansFrom 0 ((Scan.scan dialect text).map Token.pair) := by
    rw [map_tokens, snapshotOf, Tree.leaves, holds.leaves, Token.flatten_lines]
    rfl
  refine ⟨covers, rfl, tokens, ?_, joined, ?_, ?_, ?_, ?_⟩
  · calc
      _ = ((Place.tokens
          ⟨(snapshotOf text (passages dialect text) false).root, []⟩).map
            (fun leaf => (leaf.kind, leaf.span))).map
          (fun leaf => text.slice leaf.2.start leaf.2.stop) := by
        rw [List.map_map]
        rfl
      _ = (Scan.scan dialect text).map Token.text := by
        rw [tokens]
        exact Tree.slices_spansFrom joined.symm
  · intro place member isEol
    exact (stands place member).of_eol isEol
  · intro line member
    obtain ⟨below, isLine⟩ := mem_lines_iff.mp member
    rw [countP_tokens line fun kind => kind == .eol]
    exact ((stands line below).of_line isLine).1.countP_eol_le
  · intro line member
    obtain ⟨below, isLine⟩ := mem_lines_iff.mp (List.dropLast_subset _ member)
    have nodeIn : line.focus ∈
        (Tree.allLineNodes (treesOf (passages dialect text))).dropLast := by
      rw [← lines_of_root holds.shape, ← List.map_dropLast]
      exact List.mem_map_of_mem member
    have ends := ended_of_mem_dropLast holds
      ((stands line below).of_line isLine).1 nodeIn
    rw [← map_focus_children, List.getLast?_map, Option.map_map] at ends
    exact ends
  · intro line member outer outerIn
    obtain ⟨below, isLine⟩ := mem_lines_iff.mp member
    obtain ⟨crumb, crumbIn, same⟩ := kind_of_mem_enclosing _ _ outerIn
    rw [same]
    exact ((stands line below).of_line isLine).2 crumb crumbIn

/-- An arena can be made for the tree. -/
def HasArena (parse : Parse) : Prop :=
  ∃ arena, Arena.ofTree? parse.text parse.root = some arena

theorem Covers.hasArena {parse : Parse} (covers : parse.Covers parse.text)
    (isNode : parse.root.isNode = true) : parse.HasArena := by
  have spans := congrArg Span.stop covers.rootSpan
  refine Arena.isSome_ofTree? isNode ?_
  simpa [Place.span, Place.start, Crumb.offset, Place.length] using spans

theorem hasArena_ofText (dialect : Dialect) (text : Bytes) : (ofText dialect text).HasArena := by
  refine (covers_ofText dialect text).hasArena ?_
  rcases ofText_cases dialect text with ⟨-, read⟩ | ⟨-, refused⟩
  · rw [read]
    rfl
  · rw [refused]
    rfl

/-- The parse is what a reading leads to: no block stays open, the log of the reading is
resolved and makes the tree, and an arena can be made for it. -/
structure ComesOf (reading : Reading) (parse : Parse) : Prop where
  closed : reading.IsClosed
  made : ∃ operations log plans,
    Log.Makes reading.steps.reverse parse.root operations log plans
  arena : parse.HasArena

theorem comesOf_toParse (dialect : Dialect) (stopAfter : Option Nat)
    {candidates : List Candidate} (nodes : ∀ candidate ∈ candidates, candidate.tree.isNode = true)
    {text : Bytes}
    (arena : ((Reading.ofText dialect stopAfter candidates text).toParse stopAfter text).HasArena) :
    ((Reading.ofText dialect stopAfter candidates text).toParse stopAfter text).ComesOf
      (Reading.ofText dialect stopAfter candidates text) where
  closed := isClosed_close _
  made := (isTraced_ofText dialect stopAfter nodes text).exists_makes (isClosed_close _)
  arena := arena

/-- Parsing loses nothing and follows the lines of the text, unless the text is too long
and is refused.  On the way each line is read to its end, no loop depends on its bound, and
the log of all steps makes the tree. -/
theorem ofText_follows_lines (dialect : Dialect) (text : Bytes) :
    (text.length ≤ maxTextLength →
      (ofText dialect text).FollowsLines dialect text ∧
        (ofText dialect text).ComesOf (Reading.ofText dialect none [] text)) ∧
      (maxTextLength < text.length →
        ofText dialect text = rejected ⟨text.length, maxTextLength⟩ ∧
          (ofText dialect text).HasArena) ∧
      (∀ line ∈ Token.lines (Scan.scan dialect text), ∀ block?,
        Line.RunsThrough dialect block? line) ∧
      ∀ draft : Draft, draft.role = .plain → draft.LoopsEnd := by
  have arena := hasArena_ofText dialect text
  refine ⟨fun fits => ?_, fun tooLong => ⟨ofText_of_lt tooLong, arena⟩,
    fun _ member block? => Line.runsThrough_of_mem_lines dialect block? member,
    fun _ plain => Draft.loopsEnd plain⟩
  rw [ofText_of_le fits] at arena ⊢
  exact ⟨followsLines_entire dialect text, comesOf_toParse dialect none (by simp) arena⟩

/-- A text that is too long is not covered. -/
theorem overlong_not_covered :
    ¬∀ (dialect : Dialect) (text : Bytes), (ofText dialect text).FollowsLines dialect text := by
  intro follows
  have tooLong := Bytes.lt_length_overlong 0x3b
  have covers := (follows .stock (Bytes.overlong 0x3b)).toCovers
  rw [ofText_of_lt tooLong] at covers
  exact Bytes.overlong_ne_nil 0x3b covers.textEq.symm

end Parse
end Asm6502
