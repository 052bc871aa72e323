import Asm6502.Proofs.BareTrees
import Asm6502.Proofs.GrammarCongruence
import Asm6502.Proofs.Writing

/-!
# Two lines read in step

Where the tokens of two lines agree one by one in what the grammar looks at, the lines
are read in step: at every moment as many tokens have been taken from either, trees of
the same shape stand in their sketches, and the same faults have been found at the
same tokens.  This is a congruence, so it holds from the start of a line to its end.
-/

namespace Asm6502

open List (Forall₂)

namespace Token

/-- Where the token at an index of a list starts, or else where the list ends. -/
def startAt (tokens : List Token) (index : Nat) : Nat :=
  totalLength (tokens.take index)

/-- The span of the tokens from one index up to another. -/
def spanAt (tokens : List Token) (first last : Nat) : Span :=
  ⟨startAt tokens first, startAt tokens last⟩

theorem startAt_add (tokens : List Token) (first second : Nat) :
    startAt tokens (first + second) =
      startAt tokens first + startAt (tokens.drop first) second := by
  rw [startAt, List.take_add, totalLength_append]
  rfl

theorem startAt_append (tokens more : List Token) {index : Nat}
    (bounded : index ≤ tokens.length) :
    startAt (tokens ++ more) index = startAt tokens index := by
  rw [startAt, List.take_append_of_le_length bounded]
  rfl

theorem startAt_length_add (before tokens : List Token) (index : Nat) :
    startAt (before ++ tokens) (before.length + index) =
      totalLength before + startAt tokens index := by
  rw [startAt_add, startAt_append before tokens (Nat.le_refl _), List.drop_left, startAt,
    List.take_length]

end Token

/-- The spans stand at the same tokens of two lists. -/
def Span.Match (tokens others : List Token) (span other : Span) : Prop :=
  ∃ first last, first ≤ tokens.length ∧ last ≤ tokens.length ∧
    span = Token.spanAt tokens first last ∧ other = Token.spanAt others first last

namespace Diagnostic

/-- The wordings of a fault that two texts share: they are the same, or each names its
own spelling of an unknown directive. -/
inductive Worded (Same : Token → Token → Prop) : String → String → Prop
  | same (message : String) : Worded Same message message
  | unknownDirective {token other : Token} :
      Same token other → token.kind = .dotIdent →
        Worded Same (Cause.unknownDirective (Utf8.decode token.text)).message
          (Cause.unknownDirective (Utf8.decode other.text)).message

/-- A fault that two lists of tokens share. -/
structure Twin (Same : Token → Token → Prop) (tokens others : List Token)
    (diagnostic other : Diagnostic) : Prop where
  wording : Worded Same diagnostic.message other.message
  span : Span.Match tokens others diagnostic.span other.span

end Diagnostic

namespace Draft

/-- The draft has come to the token at an index of a line. -/
structure At (line : List Token) (index : Nat) (draft : Draft) : Prop where
  le : index ≤ line.length
  rest : draft.rest = line.drop index
  offset : draft.offset = Token.startAt line index

namespace At

variable {line taken : List Token} {index : Nat} {draft after : Draft}

theorem append (stands : At line index draft) (rest : draft.rest = taken ++ after.rest)
    (offset : after.offset = draft.offset + Token.totalLength taken) :
    At line (index + taken.length) after := by
  have split : line.drop index = taken ++ after.rest := by rw [← stands.rest, rest]
  refine ⟨?_, ?_, ?_⟩
  · have lengths := congrArg List.length split
    rw [List.length_drop, List.length_append] at lengths
    have bounded := stands.le
    omega
  · rw [← List.drop_drop, split, List.drop_left]
  · rw [offset, stands.offset, Token.startAt_add, split,
      Token.startAt_append _ _ (Nat.le_refl _), Token.startAt, Token.startAt,
      List.take_length]

theorem took (stands : At line index draft) (took : Took taken draft after) :
    At line (index + taken.length) after :=
  stands.append took.rest took.offset

theorem congr (stands : At line index draft) (rest : after.rest = draft.rest)
    (offset : after.offset = draft.offset) : At line index after :=
  ⟨stands.le, rest.trans stands.rest, offset.trans stands.offset⟩

theorem nextStart (stands : At line index draft) :
    draft.nextStart = Token.startAt line (index + draft.trivia.length) :=
  (stands.took (took_takeTrivia draft)).offset

theorem nextSpan (stands : At line index draft) :
    draft.nextSpan =
      Token.spanAt line (index + draft.trivia.length)
        (index + (draft.trivia.length + (draft.upcoming.take 1).length)) := by
  rw [Draft.nextSpan, Token.spanAt, stands.nextStart]
  congr 1
  cases ahead : draft.upcoming with
  | nil => rfl
  | cons token behind =>
      have stop := (stands.took (took_bump ahead)).offset
      rw [bump_of_upcoming ahead, List.length_append, stands.nextStart] at stop
      exact stop

end At

/-- Two lines have been read in step so far. -/
structure Twins (Same : Token → Token → Prop) (line others : List Token)
    (draft other : Draft) : Prop where
  taken : ∃ index, At line index draft ∧ At others index other
  lastEnd : ∃ index ≤ line.length,
    draft.lastEnd = Token.startAt line index ∧ other.lastEnd = Token.startAt others index
  sketch : draft.sketch.bare id = other.sketch.bare id
  diagnostics : Forall₂ (Diagnostic.Twin Same line others) draft.diagnostics other.diagnostics

namespace Twins

variable {Same : Token → Token → Prop} {line others : List Token} {draft other : Draft}

theorem start (line others : List Token) :
    Twins Same line others { rest := line } { rest := others } where
  taken := ⟨0, ⟨Nat.zero_le _, rfl, rfl⟩, ⟨Nat.zero_le _, rfl, rfl⟩⟩
  lastEnd := ⟨0, Nat.zero_le _, rfl, rfl⟩
  sketch := rfl
  diagnostics := .nil

theorem leave (twins : Twins Same line others draft other) (kind : Kind) :
    Twins Same line others (draft.leave kind) (other.leave kind) where
  taken := twins.taken.imp fun _ stand => ⟨stand.1.congr rfl rfl, stand.2.congr rfl rfl⟩
  lastEnd := twins.lastEnd
  sketch := by
    change (draft.sketch.leave kind).bare id = (other.sketch.leave kind).bare id
    rw [Sketch.bare_leave, twins.sketch, Sketch.bare_leave]
  diagnostics := twins.diagnostics

theorem wrap (twins : Twins Same line others draft other) (role : Role) :
    Twins Same line others (draft.wrap role) (other.wrap role) where
  taken := twins.taken.imp fun _ stand => ⟨stand.1.congr rfl rfl, stand.2.congr rfl rfl⟩
  lastEnd := twins.lastEnd
  sketch := by
    change (draft.sketch.wrap role).bare id = (other.sketch.wrap role).bare id
    rw [Sketch.bare_wrap, twins.sketch, Sketch.bare_wrap]
  diagnostics := twins.diagnostics

theorem errorAt (twins : Twins Same line others draft other) {cause cause' : Cause}
    {span span' : Span} (wording : Diagnostic.Worded Same cause.message cause'.message)
    (spans : Span.Match line others span span') :
    Twins Same line others (draft.errorAt cause span) (other.errorAt cause' span') where
  taken := twins.taken.imp fun _ stand => ⟨stand.1.congr rfl rfl, stand.2.congr rfl rfl⟩
  lastEnd := twins.lastEnd
  sketch := twins.sketch
  diagnostics := .cons ⟨wording, spans⟩ twins.diagnostics

theorem role (twins : Twins Same line others draft other) : draft.role = other.role := by
  have tags := congrArg Sketch.tag? twins.sketch
  rw [Sketch.tag?_bare, Sketch.tag?_bare, Option.map_id] at tags
  rw [Draft.role, Draft.role]
  exact congrArg (·.getD .plain) tags

section Steps

variable (reads : ∀ ⦃token other : Token⦄, Same token other → token.ReadsLike other)
  (pairwise : Forall₂ Same line others)
include reads pairwise

omit reads in
theorem rest (twins : Twins Same line others draft other) :
    Forall₂ Same draft.rest other.rest := by
  obtain ⟨index, here, there⟩ := twins.taken
  rw [here.rest, there.rest]
  exact List.forall₂_drop index pairwise

theorem looksLike (twins : Twins Same line others draft other) : LooksLike draft other :=
  ⟨(twins.rest pairwise).imp reads, twins.role⟩

theorem upcoming (twins : Twins Same line others draft other) :
    Forall₂ Same draft.upcoming other.upcoming :=
  Token.forall₂_dropWhile_isTrivia reads (twins.rest pairwise)

theorem trivia (twins : Twins Same line others draft other) :
    Forall₂ Same draft.trivia other.trivia := by
  have whole := twins.rest pairwise
  have ahead := (twins.upcoming reads pairwise).length_eq
  rw [← draft.trivia_append_upcoming, ← other.trivia_append_upcoming] at whole
  have lengths := whole.length_eq
  rw [List.length_append, List.length_append] at lengths
  have sameLength : draft.trivia.length = other.trivia.length := by omega
  have first := List.forall₂_take draft.trivia.length whole
  rwa [List.take_left, sameLength, List.take_left] at first

theorem nextSpan (twins : Twins Same line others draft other) :
    Span.Match line others draft.nextSpan other.nextSpan := by
  obtain ⟨index, here, there⟩ := twins.taken
  have trivia := (twins.trivia reads pairwise).length_eq
  have ahead := (twins.upcoming reads pairwise).length_eq
  have trivial := (here.took (took_takeTrivia draft)).le
  refine ⟨_, _, trivial, ?_, here.nextSpan, ?_⟩
  · have taken := congrArg List.length here.rest
    rw [← draft.trivia_append_upcoming, List.length_append, List.length_drop] at taken
    rw [List.length_take]
    omega
  · rw [there.nextSpan, trivia, List.length_take, List.length_take, ahead]

omit pairwise in
theorem map_bare_leaf {tokens tokens' : List Token} (alike : Forall₂ Same tokens tokens') :
    (tokens.map leaf).map Tree.bare = (tokens'.map leaf).map Tree.bare := by
  induction alike with
  | nil => rfl
  | cons first _ ih =>
      simp only [List.map_cons, ih, leaf, Tree.bare_token, (reads first).kind]

theorem takeTrivia (twins : Twins Same line others draft other) :
    Twins Same line others draft.takeTrivia other.takeTrivia where
  taken := by
    obtain ⟨index, here, there⟩ := twins.taken
    refine ⟨_, here.took (took_takeTrivia draft), ?_⟩
    rw [(twins.trivia reads pairwise).length_eq]
    exact there.took (took_takeTrivia other)
  lastEnd := twins.lastEnd
  sketch := by
    rw [Draft.takeTrivia, Draft.takeTrivia, Sketch.bare_addAll, Sketch.bare_addAll,
      twins.sketch, map_bare_leaf reads (twins.trivia reads pairwise)]
  diagnostics := twins.diagnostics

theorem enter (twins : Twins Same line others draft other) (role : Role) :
    Twins Same line others (draft.enter role) (other.enter role) := by
  have taken := twins.takeTrivia reads pairwise
  exact
    { taken := taken.taken.imp fun _ stand => ⟨stand.1.congr rfl rfl, stand.2.congr rfl rfl⟩
      lastEnd := taken.lastEnd
      sketch := congrArg (Sketch.enter · role) taken.sketch
      diagnostics := taken.diagnostics }

theorem bump (twins : Twins Same line others draft other) :
    Twins Same line others draft.bump other.bump := by
  have trivia := twins.trivia reads pairwise
  have ahead := twins.upcoming reads pairwise
  cases here : draft.upcoming with
  | nil =>
      rw [here, List.forall₂_nil_left_iff] at ahead
      simpa [Draft.bump, here, ahead] using twins
  | cons token behind =>
      rw [here] at ahead
      obtain ⟨token', behind', same, -, there⟩ := List.forall₂_cons_left_iff.mp ahead
      obtain ⟨index, stands, stands'⟩ := twins.taken
      have after := stands.took (took_bump here)
      have after' := stands'.took (took_bump there)
      rw [List.length_append, ← trivia.length_eq, ← List.length_append] at after'
      have offset : draft.bump.lastEnd = draft.bump.offset := by rw [bump_of_upcoming here]
      have offset' : other.bump.lastEnd = other.bump.offset := by rw [bump_of_upcoming there]
      refine ⟨⟨_, after, by simpa using after'⟩, ⟨_, after.le, ?_, ?_⟩, ?_, ?_⟩
      · rw [offset, after.offset]
      · rw [offset', after'.offset, List.length_append, List.length_append]
        rfl
      · rw [bump_of_upcoming here, bump_of_upcoming there]
        have leaves := map_bare_leaf reads (List.Forall₂.cons same .nil)
        have same : (leaf token).bare = (leaf token').bare := by simpa using leaves
        simp only [Sketch.bare_add, Sketch.bare_addAll, twins.sketch,
          map_bare_leaf reads trivia, same]
      · rw [bump_of_upcoming here, bump_of_upcoming there]
        exact twins.diagnostics

theorem error (twins : Twins Same line others draft other) (cause : Cause) :
    Twins Same line others (draft.error cause) (other.error cause) :=
  twins.errorAt (.same _) (twins.nextSpan reads pairwise)

theorem skip (twins : Twins Same line others draft other) (stop : Kind → Bool) :
    Twins Same line others (draft.skip stop) (other.skip stop) := by
  have taken : Twins Same line others (draft.enter .plain).bump (other.enter .plain).bump :=
    (twins.enter reads pairwise .plain).bump reads pairwise
  have skipped := respects_takeUntil (fun _ _ twins => twins.looksLike reads pairwise)
    (fun _ _ twins => twins.bump reads pairwise) stop taken
  exact skipped.leave .errorNode

/-- Recovery in step, from causes that are worded alike. -/
theorem recover (twins : Twins Same line others draft other) {cause cause' : Cause}
    (wording : Diagnostic.Worded Same cause.message cause'.message) (stop : Kind → Bool) :
    Twins Same line others (draft.recover cause stop) (other.recover cause' stop) := by
  have sameEnd := (twins.looksLike reads pairwise).atLineEnd
  have ahead := twins.nextSpan reads pairwise
  cases ended : draft.atLineEnd with
  | true =>
      rw [Draft.recover, Draft.recover, if_pos ended, if_pos (sameEnd ▸ ended)]
      exact twins.errorAt wording ahead
  | false =>
      rw [recover_of_not_atLineEnd ended, recover_of_not_atLineEnd (sameEnd ▸ ended)]
      have skipped := twins.skip reads pairwise stop
      obtain ⟨first, _, inside, _, here, there⟩ := ahead
      have start : draft.nextStart = Token.startAt line first := congrArg Span.start here
      have start' : other.nextStart = Token.startAt others first := congrArg Span.start there
      obtain ⟨last, bounded, lastHere, lastThere⟩ := skipped.lastEnd
      refine skipped.errorAt wording ⟨first, last, inside, bounded, ?_, ?_⟩
      · rw [start, lastHere, Token.spanAt]
      · rw [start', lastThere, Token.spanAt]

theorem worded_textAt (twins : Twins Same line others draft other)
    (isWord : draft.peek = .dotIdent) :
    Diagnostic.Worded Same (Cause.unknownDirective (Utf8.decode (draft.textAt 0))).message
      (Cause.unknownDirective (Utf8.decode (other.textAt 0))).message := by
  have ahead := twins.upcoming reads pairwise
  cases here : draft.upcoming with
  | nil =>
      rw [peek_eq, here] at isWord
      contradiction
  | cons token behind =>
      rw [here] at ahead
      obtain ⟨token', behind', same, -, there⟩ := List.forall₂_cons_left_iff.mp ahead
      rw [textAt_of_upcoming here, textAt_of_upcoming there]
      exact .unknownDirective same (peek_of_upcoming here ▸ isWord)

end Steps
end Twins

/-- Being read in step is kept by all that the grammar is composed of. -/
theorem congruence_twins {Same : Token → Token → Prop} {line others : List Token}
    (reads : ∀ ⦃token other : Token⦄, Same token other → token.ReadsLike other)
    (pairwise : Forall₂ Same line others) : Congruence (Twins Same line others) where
  looksLike twins := twins.looksLike reads pairwise
  takeTrivia twins := twins.takeTrivia reads pairwise
  bump twins := twins.bump reads pairwise
  enter role twins := twins.enter reads pairwise role
  wrap role twins := twins.wrap role
  leave _ twins := twins.leave _
  error cause twins := twins.error reads pairwise cause
  recover cause stop twins := twins.recover reads pairwise (.same _) stop
  recoverWord stop twins isWord :=
    twins.recover reads pairwise (twins.worded_textAt reads pairwise isWord) stop
  stray twins _ := by
    have entered := (twins.enter reads pairwise .plain).error reads pairwise .expectedExpression
    exact (entered.bump reads pairwise).leave .errorNode

end Draft
end Asm6502
