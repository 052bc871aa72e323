import Asm6502.Proofs.BracedDrafts

/-!
# Drafts behind an exchanged list

Once the rule for lists has taken a list in braces, what is left of two lines that differ
in its tokens is the same, and so is all that is read from then on.  The sketches are one
frame in which each line has put its own list, and what is reported behind the list only
moves with its length.
-/

namespace Asm6502

open List (Forall₂)

/-- Positions that correspond when a list of one length is put in the place of one of
another length. -/
inductive Across (position length length' : Nat) : Nat → Nat → Prop
  | before {start : Nat} : start ≤ position → Across position length length' start start
  | behind (further : Nat) :
      Across position length length' (position + length + further) (position + length' + further)

namespace Across

variable {position length length' start start' stop stop' : Nat}

/-- Positions keep their order. -/
theorem le_iff (nonempty : 0 < length) (nonempty' : 0 < length')
    (first : Across position length length' start start')
    (second : Across position length length' stop stop') : start ≤ stop ↔ start' ≤ stop' := by
  cases first with
  | before first =>
      cases second with
      | before second => rfl
      | behind further => omega
  | behind further =>
      cases second with
      | before second => omega
      | behind more => omega

theorem shift (across : Across position length length' start start') (offset : Nat) :
    Across (position + offset) length length' (start + offset) (start' + offset) := by
  cases across with
  | before early => exact .before (Nat.add_le_add_right early offset)
  | behind further =>
      have moved (length : Nat) :
          position + length + further + offset = position + offset + length + further := by
        omega
      rw [moved, moved]
      exact .behind further

end Across

/-- The same fault of two texts, at positions that correspond. -/
structure Diagnostic.Across (position length length' : Nat) (diagnostic other : Diagnostic) :
    Prop where
  message : diagnostic.message = other.message
  start : Asm6502.Across position length length' diagnostic.start other.start

theorem Sketch.map_fillWith_of_whole {τ : Type} (part : Tree) {sketch : Sketch τ}
    (whole : Tree.Whole (Tree.allLeaves sketch.forest)) :
    sketch.map id (Tree.fillWith part) = sketch := by
  have each : ∀ tree ∈ sketch.forest, Tree.fillWith part tree = tree := by
    intro tree member
    refine Tree.fillWith_of_whole part fun leaf leafIn => whole leaf ?_
    rw [Tree.allLeaves_eq_flatMap]
    exact List.mem_flatMap_of_mem member leafIn
  have settled : sketch.settled.map (Tree.fillWith part) = sketch.settled :=
    (List.map_congr_left fun tree member => each tree (by simp [forest, member])).trans
      (List.map_id _)
  have opened : (sketch.opened.map fun entry => (id entry.1, entry.2.map (Tree.fillWith part))) =
      sketch.opened := by
    refine (List.map_congr_left fun entry member => ?_).trans (List.map_id _)
    have children : entry.2.map (Tree.fillWith part) = entry.2 := by
      refine (List.map_congr_left fun tree treeIn => each tree ?_).trans (List.map_id _)
      simp only [forest, List.mem_append, List.mem_flatMap, List.mem_reverse]
      exact .inr ⟨entry, member, treeIn⟩
    rw [children]
    rfl
  rw [map, settled, opened]

theorem Tree.map_fillWith_leaves (part : Tree) {tokens : List Token}
    (whole : ∀ token ∈ tokens, token.kind ≠ .eof) :
    (tokens.map Draft.leaf).map (fillWith part) = tokens.map Draft.leaf := by
  refine map_fillWith_of_whole part ?_
  rw [Draft.allLeaves_map_leaf]
  exact whole_map_pair whole

/-- The node of a list. -/
def Token.listNode (inside : List Token) : Tree :=
  .node .macroArg ((braced inside).map Draft.leaf)

namespace Exchange

open Draft

def part (exchange : Exchange) : Tree :=
  Token.listNode exchange.inside

def otherPart (exchange : Exchange) : Tree :=
  Token.listNode exchange.filler

def length (exchange : Exchange) : Nat :=
  Token.totalLength (Token.braced exchange.inside)

def otherLength (exchange : Exchange) : Nat :=
  Token.totalLength (Token.braced exchange.filler)

/-- Positions of the two lines that correspond. -/
abbrev Across (exchange : Exchange) : Nat → Nat → Prop :=
  Asm6502.Across exchange.position exchange.length exchange.otherLength

/-- Two drafts have come to the same place behind the list. -/
structure Behind (exchange : Exchange) (taken : List Token) (frame : Sketch Role)
    (draft other : Draft) : Prop where
  behind : exchange.behind = taken ++ draft.rest
  rest : other.rest = draft.rest
  offset : draft.offset = exchange.position + exchange.length + Token.totalLength taken
  otherOffset :
    other.offset = exchange.position + exchange.otherLength + Token.totalLength taken
  sketch : draft.sketch = frame.map id (Tree.fillWith exchange.part)
  otherSketch : other.sketch = frame.map id (Tree.fillWith exchange.otherPart)
  leaves : Tree.allLeaves frame.forest =
    exchange.front.map Token.pair ++ (.eof, 0) :: taken.map Token.pair
  reports :
    Forall₂ (Diagnostic.Across exchange.position exchange.length exchange.otherLength)
      draft.diagnostics other.diagnostics

def Past (exchange : Exchange) (draft other : Draft) : Prop :=
  ∃ taken frame, Behind exchange taken frame draft other

variable {exchange : Exchange} {taken tokens : List Token} {frame : Sketch Role}
  {draft other later later' : Draft}

namespace Behind

variable (behind : Behind exchange taken frame draft other)
include behind

theorem role : draft.role = other.role := by
  rw [Draft.role, Draft.role, behind.sketch, behind.otherSketch, Sketch.tag?_map,
    Sketch.tag?_map]

theorem trivia : other.trivia = draft.trivia := by
  rw [Draft.trivia, behind.rest]
  rfl

theorem upcoming : other.upcoming = draft.upcoming := by
  rw [Draft.upcoming, behind.rest]
  rfl

theorem looksLike : LooksLike draft other where
  rest := by
    rw [behind.rest]
    exact List.forall₂_same.mpr fun _ _ => ⟨rfl, fun _ => rfl⟩
  role := behind.role

theorem whole : ∀ token ∈ draft.rest, token.kind ≠ .eof := by
  intro token member
  refine exchange.behind_whole token ?_
  rw [behind.behind]
  exact List.mem_append_right _ member

theorem nextStart : exchange.Across draft.nextStart other.nextStart := by
  rw [Draft.nextStart, Draft.nextStart, behind.trivia, behind.offset, behind.otherOffset,
    Nat.add_assoc _ (Token.totalLength taken), Nat.add_assoc _ (Token.totalLength taken)]
  exact .behind _

theorem errorAt (cause : Cause) {span span' : Span}
    (start : exchange.Across span.start span'.start) :
    Behind exchange taken frame (draft.errorAt cause span) (other.errorAt cause span') :=
  { behind with reports := .cons ⟨rfl, start⟩ behind.reports }

theorem error (cause : Cause) :
    Behind exchange taken frame (draft.error cause) (other.error cause) :=
  behind.errorAt cause behind.nextStart

theorem leave (kind : Kind) :
    Behind exchange taken (frame.leave kind) (draft.leave kind) (other.leave kind) :=
  { behind with
    sketch := by rw [Draft.leave, behind.sketch, Sketch.map_leave _ (Tree.fillWith_node _)]
    otherSketch := by
      rw [Draft.leave, behind.otherSketch, Sketch.map_leave _ (Tree.fillWith_node _)]
    leaves := by rw [Sketch.allLeaves_forest_leave, behind.leaves] }

theorem wrap (role : Role) :
    Behind exchange taken (frame.wrap role) (draft.wrap role) (other.wrap role) :=
  { behind with
    sketch := by
      rw [Draft.wrap, behind.sketch, Sketch.map_wrap]
      rfl
    otherSketch := by
      rw [Draft.wrap, behind.otherSketch, Sketch.map_wrap]
      rfl
    leaves := by rw [Sketch.forest_wrap, behind.leaves] }

theorem takeTrivia :
    Behind exchange (taken ++ draft.trivia) (frame.addAll (draft.trivia.map leaf))
      draft.takeTrivia other.takeTrivia where
  behind := by
    rw [List.append_assoc]
    exact behind.behind.trans (by rw [Draft.takeTrivia, trivia_append_upcoming])
  rest := behind.upcoming
  offset := by
    rw [Draft.takeTrivia, Draft.nextStart, behind.offset, Token.totalLength_append,
      Nat.add_assoc]
  otherOffset := by
    rw [Draft.takeTrivia, Draft.nextStart, behind.trivia, behind.otherOffset,
      Token.totalLength_append, Nat.add_assoc]
  sketch := by
    rw [Draft.takeTrivia, behind.sketch, Sketch.map_addAll, Tree.map_fillWith_leaves]
    exact fun token member => behind.whole token (List.takeWhile_subset _ member)
  otherSketch := by
    rw [Draft.takeTrivia, behind.otherSketch, behind.trivia, Sketch.map_addAll,
      Tree.map_fillWith_leaves]
    exact fun token member => behind.whole token (List.takeWhile_subset _ member)
  leaves := by
    rw [Sketch.forest_addAll, Tree.allLeaves_append, behind.leaves, allLeaves_map_leaf]
    simp
  reports := behind.reports

theorem enter (role : Role) :
    Behind exchange (taken ++ draft.trivia)
      ((frame.addAll (draft.trivia.map leaf)).enter role) (draft.enter role)
      (other.enter role) :=
  { behind.takeTrivia with
    sketch := by
      rw [Draft.enter, behind.takeTrivia.sketch]
      rfl
    otherSketch := by
      rw [Draft.enter, behind.takeTrivia.otherSketch]
      rfl
    leaves := by rw [Sketch.forest_enter, behind.takeTrivia.leaves] }

theorem bump {token : Token} {ahead : List Token} (next : draft.upcoming = token :: ahead) :
    Behind exchange (taken ++ draft.trivia ++ [token])
      ((frame.addAll (draft.trivia.map leaf)).add (leaf token)) draft.bump other.bump := by
  have next' : other.upcoming = token :: ahead := behind.upcoming.trans next
  have trivia := behind.takeTrivia
  have whole : ∀ other ∈ [token], other.kind ≠ .eof := by
    intro other member
    rw [List.mem_singleton.mp member]
    refine behind.whole token ((List.dropWhile_suffix Token.isTrivia).subset ?_)
    rw [Draft.upcoming] at next
    simp [next]
  have leaf_eq (part : Tree) : Tree.fillWith part (leaf token) = leaf token :=
    (List.cons.inj (Tree.map_fillWith_leaves part whole)).1
  have behindTrivia := trivia.behind
  have offset := trivia.offset
  have otherOffset := trivia.otherOffset
  have sketch := trivia.sketch
  have otherSketch := trivia.otherSketch
  simp only [Draft.takeTrivia] at behindTrivia offset otherOffset sketch otherSketch
  refine ⟨?_, ?_, ?_, ?_, ?_, ?_, ?_, ?_⟩
  · rw [behindTrivia, bump_of_upcoming next, next]
    simp
  · rw [bump_of_upcoming next, bump_of_upcoming next']
  · rw [bump_of_upcoming next, offset, Token.totalLength_append _ [token], Nat.add_assoc]
    rfl
  · rw [bump_of_upcoming next', otherOffset, Token.totalLength_append _ [token], Nat.add_assoc]
    rfl
  · rw [bump_of_upcoming next, sketch, Sketch.map_add, leaf_eq]
  · rw [bump_of_upcoming next', otherSketch, Sketch.map_add, leaf_eq]
  · rw [Sketch.forest_add, Tree.allLeaves_append, trivia.leaves]
    simp [leaf, Tree.allLeaves, Tree.leaves, Token.pair]
  · rw [bump_of_upcoming next, bump_of_upcoming next']
    exact behind.reports

end Behind

theorem Past.bump (past : exchange.Past draft other) : exchange.Past draft.bump other.bump := by
  obtain ⟨taken, frame, behind⟩ := past
  cases next : draft.upcoming with
  | nil =>
      have stays : draft.bump = draft := by simp [Draft.bump, next]
      have stays' : other.bump = other := by simp [Draft.bump, behind.upcoming, next]
      rw [stays, stays']
      exact ⟨taken, frame, behind⟩
  | cons token ahead => exact ⟨_, _, behind.bump next⟩

theorem Past.looksLike (past : exchange.Past draft other) : LooksLike draft other := by
  obtain ⟨taken, frame, behind⟩ := past
  exact behind.looksLike

theorem Past.recover (past : exchange.Past draft other) (cause : Cause) (stop : Kind → Bool) :
    exchange.Past (draft.recover cause stop) (other.recover cause stop) := by
  have sameEnd := past.looksLike.atLineEnd
  obtain ⟨taken, frame, behind⟩ := past
  have start := behind.nextStart
  cases ended : draft.atLineEnd with
  | true =>
      rw [Draft.recover, Draft.recover, if_pos ended, if_pos (sameEnd ▸ ended)]
      exact ⟨taken, frame, behind.errorAt cause start⟩
  | false =>
      rw [recover_of_not_atLineEnd ended, recover_of_not_atLineEnd (sameEnd ▸ ended)]
      have begun : exchange.Past (draft.enter .plain).bump (other.enter .plain).bump :=
        Past.bump ⟨_, _, behind.enter .plain⟩
      obtain ⟨taken', frame', skipped⟩ :=
        respects_takeUntil (fun _ _ past => past.looksLike) (fun _ _ past => past.bump) stop begun
      exact ⟨taken', _, (skipped.leave .errorNode).errorAt cause start⟩

/-- Behind the list the lines are read alike. -/
theorem congruence_past (exchange : Exchange) : Congruence exchange.Past where
  looksLike past := past.looksLike
  takeTrivia := fun ⟨_, _, behind⟩ => ⟨_, _, behind.takeTrivia⟩
  bump past := past.bump
  enter role := fun ⟨_, _, behind⟩ => ⟨_, _, behind.enter role⟩
  wrap role := fun ⟨_, _, behind⟩ => ⟨_, _, behind.wrap role⟩
  leave _ := fun ⟨_, _, behind⟩ => ⟨_, _, behind.leave _⟩
  error cause := fun ⟨_, _, behind⟩ => ⟨_, _, behind.error cause⟩
  recover cause stop past := past.recover cause stop
  recoverWord := by
    rintro draft other stop past -
    have sameWord : other.textAt 0 = draft.textAt 0 := by
      obtain ⟨taken, frame, behind⟩ := past
      rw [Draft.textAt, Draft.textAt, tokenAt?_of_upcoming behind.upcoming]
    rw [sameWord]
    exact past.recover _ stop
  stray := by
    rintro draft other ⟨taken, frame, behind⟩ -
    have faulty := (behind.enter .plain).error .expectedExpression
    obtain ⟨taken', frame', bumped⟩ := Past.bump ⟨_, _, faulty⟩
    exact ⟨taken', _, bumped.leave .errorNode⟩

end Exchange
end Asm6502
