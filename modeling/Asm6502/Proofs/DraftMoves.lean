import Asm6502.Line.Draft
import Asm6502.Proofs.TreeShape

/-!
# Moves of a draft

A grammar rule moves a draft by taking tokens inside the line, reporting faults,
and building nodes by rules that close what they open.  `Moves` says so, and
what every rule preserves is proved here once, by induction over its moves:
tokens go from the rest to the forest in order, open nodes are as before, and
nothing but inline trees is built.
-/

namespace Asm6502

/-- The span is one of a text of the given length. -/
structure Span.Within (length : Nat) (span : Span) : Prop where
  start_le_stop : span.start ≤ span.stop
  stop_le : span.stop ≤ length

namespace Draft

@[simp]
theorem trivia_append_upcoming (draft : Draft) :
    draft.trivia ++ draft.upcoming = draft.rest :=
  List.takeWhile_append_dropWhile

theorem isTrivia_of_mem_trivia {draft : Draft} {token : Token}
    (member : token ∈ draft.trivia) : token.isTrivia = true := by
  simpa using List.all_eq_true.mp (List.all_takeWhile (l := draft.rest)) token member

theorem unbroken_trivia (draft : Draft) : Token.Unbroken draft.trivia := by
  intro token member isEol
  have trivial := isTrivia_of_mem_trivia member
  rw [Token.isTrivia, isEol] at trivial
  contradiction

theorem tokenAt?_zero (draft : Draft) : draft.tokenAt? 0 = draft.upcoming.head? := by
  unfold tokenAt? upcoming
  induction draft.rest with
  | nil => rfl
  | cons token rest ih =>
      rw [Token.significantAt?, List.dropWhile_cons]
      split
      · exact ih
      · rfl

theorem significant_eq_filter_upcoming (draft : Draft) :
    draft.significant = draft.upcoming.filter fun token => !token.isTrivia := by
  rw [significant, upcoming]
  induction draft.rest with
  | nil => rfl
  | cons token rest ih =>
      by_cases isTrivia : token.isTrivia
      · simpa [isTrivia] using ih
      · simp [isTrivia]

theorem peek_eq (draft : Draft) :
    draft.peek = (draft.upcoming.head?.map Token.kind).getD .eof := by
  rw [peek, kindAt, tokenAt?_zero]

theorem peek_of_upcoming {draft : Draft} {token : Token} {behind : List Token}
    (ahead : draft.upcoming = token :: behind) : draft.peek = token.kind := by
  rw [peek_eq, ahead]
  rfl

theorem upcoming_of_rest {draft : Draft} {token : Token} {behind : List Token}
    (next : draft.rest = token :: behind) (notTrivia : token.isTrivia = false) :
    draft.upcoming = token :: behind := by
  rw [upcoming, next, List.dropWhile_cons, notTrivia]
  rfl

/-- Before the end of a line there is a token to take. -/
theorem upcoming_of_not_atLineEnd {draft : Draft}
    (goesOn : draft.atLineEnd = false) :
    ∃ token behind, draft.upcoming = token :: behind ∧ token.kind ≠ .eol := by
  cases ahead : draft.upcoming with
  | nil =>
      have atEnd : draft.peek = .eof := by
        rw [peek_eq, ahead]
        rfl
      rw [atLineEnd, atEnd] at goesOn
      contradiction
  | cons token behind =>
      refine ⟨token, behind, rfl, ?_⟩
      intro isEol
      rw [atLineEnd, peek_of_upcoming ahead, isEol] at goesOn
      contradiction

theorem endsLine_eq_false {kind : Kind} (notEol : kind ≠ .eol) (notEof : kind ≠ .eof) :
    kind.endsLine = false := by
  unfold Kind.endsLine
  split <;> simp_all

theorem not_atLineEnd_of_peek {draft : Draft} {kind : Kind}
    (stands : draft.peek = kind) (inside : kind.endsLine = false) :
    draft.atLineEnd = false := by
  rw [atLineEnd, stands, inside]

@[simp]
theorem allLeaves_map_leaf (tokens : List Token) :
    Tree.allLeaves (tokens.map leaf) = tokens.map Token.pair := by
  induction tokens with
  | nil => rfl
  | cons token rest ih =>
      rw [List.map_cons, Tree.allLeaves, ih]
      rfl

/-- The tokens taken between two drafts: they were at the head of the rest,
and now stand at the end of the forest. -/
structure Took (taken : List Token) (before after : Draft) : Prop where
  rest : before.rest = taken ++ after.rest
  offset : after.offset = before.offset + Token.totalLength taken
  leaves :
    Tree.allLeaves after.sketch.forest =
      Tree.allLeaves before.sketch.forest ++ taken.map Token.pair

theorem Took.trans {first second : List Token} {start middle stop : Draft}
    (took : Took first start middle) (next : Took second middle stop) :
    Took (first ++ second) start stop where
  rest := by rw [took.rest, next.rest, List.append_assoc]
  offset := by
    rw [next.offset, took.offset, Token.totalLength_append, Nat.add_assoc]
  leaves := by
    rw [next.leaves, took.leaves, List.map_append, List.append_assoc]

theorem took_takeTrivia (draft : Draft) :
    Took draft.trivia draft draft.takeTrivia where
  rest := draft.trivia_append_upcoming.symm
  offset := rfl
  leaves := by simp [takeTrivia]

theorem bump_of_upcoming {draft : Draft} {token : Token} {behind : List Token}
    (ahead : draft.upcoming = token :: behind) :
    draft.bump =
      { draft with
        offset := draft.nextStart + token.length
        lastEnd := draft.nextStart + token.length
        rest := behind
        sketch := (draft.sketch.addAll (draft.trivia.map leaf)).add (leaf token)
        steps := .add (leaf token) ::
          ((draft.trivia.map fun token => .add (leaf token)).reverse ++ draft.steps) } := by
  simp [bump, takeTrivia, takeToken, ahead]

theorem took_bump {draft : Draft} {token : Token} {behind : List Token}
    (ahead : draft.upcoming = token :: behind) :
    Took (draft.trivia ++ [token]) draft draft.bump where
  rest := by
    rw [bump_of_upcoming ahead, List.append_assoc]
    exact (ahead ▸ draft.trivia_append_upcoming).symm
  offset := by
    simp [bump_of_upcoming ahead, nextStart, Token.totalLength, Nat.add_assoc]
  leaves := by
    simp [bump_of_upcoming ahead, leaf, Tree.allLeaves, Tree.leaves, Token.pair]

theorem significantAt?_dropWhile (index : Nat) (tokens : List Token) :
    Token.significantAt? index (tokens.dropWhile Token.isTrivia) =
      Token.significantAt? index tokens := by
  induction tokens with
  | nil => rfl
  | cons token rest ih =>
      by_cases isTrivia : token.isTrivia
      · simpa [Token.significantAt?, isTrivia] using ih
      · simp [isTrivia]

/-- What stands ahead does not depend on the trivia before it. -/
theorem tokenAt?_of_upcoming {draft other : Draft}
    (same : draft.upcoming = other.upcoming) (index : Nat) :
    draft.tokenAt? index = other.tokenAt? index := by
  rw [tokenAt?, tokenAt?, ← significantAt?_dropWhile index draft.rest,
    ← significantAt?_dropWhile index other.rest]
  exact congrArg (Token.significantAt? index) same

theorem kindAt_of_upcoming {draft other : Draft}
    (same : draft.upcoming = other.upcoming) (index : Nat) :
    draft.kindAt index = other.kindAt index := by
  rw [kindAt, kindAt, tokenAt?_of_upcoming same]

theorem not_isTrivia_of_upcoming {draft : Draft} {token : Token}
    {behind : List Token} (ahead : draft.upcoming = token :: behind) :
    token.isTrivia = false := by
  have head := List.head?_dropWhile_not Token.isTrivia draft.rest
  unfold upcoming at ahead
  rw [ahead] at head
  simpa using head

theorem tokenAt?_succ {draft : Draft} {token : Token} {behind : List Token}
    (ahead : draft.upcoming = token :: behind) (index : Nat) :
    draft.tokenAt? (index + 1) = draft.bump.tokenAt? index := by
  rw [tokenAt?, tokenAt?, ← significantAt?_dropWhile, bump_of_upcoming ahead]
  unfold upcoming at ahead
  simp [ahead, Token.significantAt?, not_isTrivia_of_upcoming ahead]

theorem kindAt_succ {draft : Draft} {token : Token} {behind : List Token}
    (ahead : draft.upcoming = token :: behind) (index : Nat) :
    draft.kindAt (index + 1) = draft.bump.kindAt index := by
  rw [kindAt, kindAt, tokenAt?_succ ahead]

/-- How the rules of the grammar change a draft.  The flag tells that at last a node has
been closed with tokens in it; a node is opened around such a one only. -/
inductive Draws : (filled : Bool) → Draft → Draft → Prop
  | stay (draft : Draft) : Draws false draft draft
  | trans {filled further : Bool} {first second third : Draft} :
      Draws filled first second → Draws further second third → Draws further first third
  | bump {draft : Draft} : draft.atLineEnd = false → Draws false draft draft.bump
  | error (cause : Cause) (draft : Draft) : Draws false draft (draft.error cause)
  /-- A fault in tokens that have been taken already. -/
  | errorAt (cause : Cause) {span : Span} {draft : Draft} :
      span.start ≤ span.stop → span.stop ≤ draft.offset →
        Draws false draft (draft.errorAt cause span)
  | enter {inside filled : Bool} {role : Role} {kind : Kind} {draft inner : Draft} :
      kind.IsInline → Draws inside (draft.enter role) inner →
        (filled = true → inner.rest.length < (draft.enter role).rest.length) →
          Draws filled draft (inner.leave kind)
  | wrap {inside : Bool} {role : Role} {kind : Kind} {draft operand inner : Draft} :
      kind.IsInline → Draws true draft operand → Draws inside (operand.wrap role) inner →
        Draws true draft (inner.leave kind)

/-- What the rules of the grammar do to a draft. -/
def Moves (before after : Draft) : Prop :=
  ∃ filled, Draws filled before after

section

variable {first second third draft inner : Draft}

theorem Moves.stay (draft : Draft) : Moves draft draft :=
  ⟨_, .stay draft⟩

theorem Moves.trans (moves : Moves first second) (more : Moves second third) :
    Moves first third := by
  obtain ⟨_, draws⟩ := moves
  obtain ⟨_, further⟩ := more
  exact ⟨_, draws.trans further⟩

theorem Moves.bump (goesOn : draft.atLineEnd = false) : Moves draft draft.bump :=
  ⟨_, .bump goesOn⟩

theorem Moves.error (cause : Cause) (draft : Draft) : Moves draft (draft.error cause) :=
  ⟨_, .error cause draft⟩

theorem Moves.errorAt (cause : Cause) {span : Span} (ordered : span.start ≤ span.stop)
    (taken : span.stop ≤ draft.offset) : Moves draft (draft.errorAt cause span) :=
  ⟨_, .errorAt cause ordered taken⟩

theorem Moves.enter {role : Role} {kind : Kind} (isInline : kind.IsInline)
    (moves : Moves (draft.enter role) inner) : Moves draft (inner.leave kind) := by
  obtain ⟨_, draws⟩ := moves
  exact ⟨false, .enter isInline draws (by simp)⟩

end

/-- A rule that is made of moves, wherever the node it works in is closed by
its own rule. -/
def Rule (rule : Draft → Draft) : Prop :=
  ∀ draft : Draft, draft.role = .plain → Moves draft (rule draft)

theorem tags_enter (role : Role) (draft : Draft) :
    (draft.enter role).sketch.tags = role :: draft.sketch.tags := by
  simp [enter, takeTrivia]

theorem tags_bump (draft : Draft) : draft.bump.sketch.tags = draft.sketch.tags := by
  cases ahead : draft.upcoming with
  | nil => simp [bump, ahead]
  | cons token behind => simp [bump_of_upcoming ahead]

theorem Moves.tags {before after : Draft} (moves : Moves before after) :
    after.sketch.tags = before.sketch.tags := by
  obtain ⟨_, draws⟩ := moves
  induction draws with
  | stay => rfl
  | trans _ _ first second => rw [second, first]
  | bump => exact tags_bump _
  | error => rfl
  | errorAt => rfl
  | enter _ _ _ ih => rw [leave, Sketch.tags_leave, ih, tags_enter, List.tail_cons]
  | wrap _ _ _ before ih =>
      rw [leave, Sketch.tags_leave, ih, Draft.wrap, Sketch.tags_wrap, before,
        List.tail_cons]

theorem role_eq (draft : Draft) :
    draft.role = (draft.sketch.tags.head?).getD .plain := by
  rw [role, Sketch.tag?_eq_head?]

theorem Moves.role {before after : Draft} (moves : Moves before after) :
    after.role = before.role := by
  rw [role_eq, role_eq, moves.tags]

theorem took_leave {taken : List Token} {before after : Draft}
    (took : Took taken before after) (kind : Kind) :
    Took taken before (after.leave kind) where
  rest := took.rest
  offset := took.offset
  leaves := by rw [leave, Sketch.allLeaves_forest_leave, took.leaves]

theorem took_enter (role : Role) (draft : Draft) :
    Took draft.trivia draft (draft.enter role) where
  rest := (took_takeTrivia draft).rest
  offset := (took_takeTrivia draft).offset
  leaves := by
    rw [enter, Sketch.forest_enter]
    exact (took_takeTrivia draft).leaves

theorem length_rest_enter_le (role : Role) (draft : Draft) :
    (draft.enter role).rest.length ≤ draft.rest.length := by
  rw [(took_enter role draft).rest, List.length_append]
  omega

theorem took_wrap (role : Role) (draft : Draft) :
    Took [] draft (draft.wrap role) where
  rest := rfl
  offset := rfl
  leaves := by simp [wrap]

theorem took_nil {before after : Draft} (rest : after.rest = before.rest)
    (offset : after.offset = before.offset) (sketch : after.sketch = before.sketch) :
    Took [] before after where
  rest := rest.symm
  offset := offset
  leaves := by simp [sketch]

theorem Moves.took {before after : Draft} (moves : Moves before after) :
    ∃ taken, Token.Unbroken taken ∧ Took taken before after := by
  obtain ⟨_, draws⟩ := moves
  induction draws with
  | stay => exact ⟨[], by simp [Token.Unbroken], took_nil rfl rfl rfl⟩
  | trans _ _ first second =>
      obtain ⟨taken, unbroken, took⟩ := first
      obtain ⟨more, moreUnbroken, tookMore⟩ := second
      refine ⟨taken ++ more, ?_, took.trans tookMore⟩
      intro token member
      rcases List.mem_append.mp member with early | late
      · exact unbroken token early
      · exact moreUnbroken token late
  | bump goesOn =>
      obtain ⟨token, behind, ahead, notEol⟩ := upcoming_of_not_atLineEnd goesOn
      refine ⟨_, ?_, took_bump ahead⟩
      intro other member
      rcases List.mem_append.mp member with isTrivia | isToken
      · exact unbroken_trivia _ other isTrivia
      · obtain rfl : other = token := by simpa using isToken
        exact notEol
  | error => exact ⟨[], by simp [Token.Unbroken], took_nil rfl rfl rfl⟩
  | errorAt => exact ⟨[], by simp [Token.Unbroken], took_nil rfl rfl rfl⟩
  | @enter _ _ role kind draft inner _ _ _ ih =>
      obtain ⟨taken, unbroken, took⟩ := ih
      refine ⟨draft.trivia ++ taken, ?_,
        took_leave ((took_enter role draft).trans took) kind⟩
      intro token member
      rcases List.mem_append.mp member with isTrivia | isTaken
      · exact unbroken_trivia _ token isTrivia
      · exact unbroken token isTaken
  | @wrap _ role kind draft operand inner _ _ _ before ih =>
      obtain ⟨early, earlyUnbroken, tookOperand⟩ := before
      obtain ⟨taken, unbroken, took⟩ := ih
      refine ⟨early ++ taken, ?_,
        took_leave (tookOperand.trans ((took_wrap role operand).trans took)) kind⟩
      intro token member
      rcases List.mem_append.mp member with isEarly | isTaken
      · exact earlyUnbroken token isEarly
      · exact unbroken token isTaken

theorem Moves.rest_suffix {before after : Draft} (moves : Moves before after) :
    after.rest <:+ before.rest := by
  obtain ⟨taken, -, took⟩ := moves.took
  exact ⟨taken, took.rest.symm⟩

theorem length_rest_bump {draft : Draft} (goesOn : draft.atLineEnd = false) :
    draft.bump.rest.length < draft.rest.length := by
  obtain ⟨token, behind, ahead, -⟩ := upcoming_of_not_atLineEnd goesOn
  rw [(took_bump ahead).rest]
  simp only [List.length_append, List.length_cons, List.length_nil]
  omega

theorem length_rest_bump_le (draft : Draft) :
    draft.bump.rest.length ≤ draft.rest.length := by
  cases ahead : draft.upcoming with
  | nil => simp [bump, ahead]
  | cons token behind =>
      rw [(took_bump ahead).rest, List.length_append]
      exact Nat.le_add_left _ _

theorem Moves.length_rest_le {before after : Draft} (moves : Moves before after) :
    after.rest.length ≤ before.rest.length :=
  moves.rest_suffix.length_le

theorem isInline_leaf {token : Token} (scanned : Scan.IsScanned token)
    (notEol : token.kind ≠ .eol) : Tree.IsInline (leaf token) := by
  refine .token (scanned.kind_cases.resolve_right notEol) ?_
  exact List.length_pos_iff.mpr scanned.text_ne_nil

/-- The draft's rest comes from the scanner, and its forest stands inside a
line. -/
structure Inline (draft : Draft) : Prop where
  scanned : ∀ token ∈ draft.rest, Scan.IsScanned token
  inside : ∀ tree ∈ draft.sketch.forest, Tree.IsInline tree

theorem Inline.takeTrivia {draft : Draft} (shape : draft.Inline) :
    draft.takeTrivia.Inline where
  scanned token member := by
    apply shape.scanned token
    rw [(took_takeTrivia draft).rest]
    exact List.mem_append_right _ member
  inside tree member := by
    simp only [Draft.takeTrivia, Sketch.forest_addAll, List.mem_append,
      List.mem_map] at member
    rcases member with old | ⟨token, isTrivia, rfl⟩
    · exact shape.inside tree old
    · apply isInline_leaf
      · apply shape.scanned token
        rw [(took_takeTrivia draft).rest]
        exact List.mem_append_left _ isTrivia
      · exact unbroken_trivia draft token isTrivia

theorem Inline.bump {draft : Draft} (shape : draft.Inline)
    (goesOn : draft.atLineEnd = false) : draft.bump.Inline := by
  obtain ⟨token, behind, ahead, notEol⟩ := upcoming_of_not_atLineEnd goesOn
  have tokenScanned : Scan.IsScanned token := by
    apply shape.scanned token
    rw [← draft.trivia_append_upcoming, ahead]
    simp
  have taken := shape.takeTrivia
  rw [bump_of_upcoming ahead]
  refine ⟨?_, ?_⟩
  · intro other member
    apply taken.scanned other
    rw [Draft.takeTrivia, ahead]
    exact List.mem_cons_of_mem _ member
  · intro tree member
    simp only [Sketch.forest_add, List.mem_append, List.mem_singleton] at member
    rcases member with old | rfl
    · exact taken.inside tree old
    · exact isInline_leaf tokenScanned notEol

theorem Inline.enter {draft : Draft} (shape : draft.Inline) (role : Role) :
    (draft.enter role).Inline where
  scanned := shape.takeTrivia.scanned
  inside tree member := by
    rw [Draft.enter, Sketch.forest_enter] at member
    exact shape.takeTrivia.inside tree member

theorem Inline.wrap {draft : Draft} (shape : draft.Inline) (role : Role) :
    (draft.wrap role).Inline where
  scanned := shape.scanned
  inside tree member := by
    rw [Draft.wrap, Sketch.forest_wrap] at member
    exact shape.inside tree member

theorem Inline.leave {draft : Draft} (shape : draft.Inline) {kind : Kind}
    (isInline : kind.IsInline) : (draft.leave kind).Inline where
  scanned := shape.scanned
  inside tree member := by
    rw [Draft.leave] at member
    rcases Sketch.forest_leave draft.sketch kind with
      same | ⟨before, children, nonempty, split, closed⟩
    · rw [same] at member
      exact shape.inside tree member
    · rw [closed] at member
      have insideSplit := shape.inside
      rw [split] at insideSplit
      rcases List.mem_append.mp member with old | new
      · exact insideSplit tree (List.mem_append_left _ old)
      · obtain rfl : tree = .node kind children := by simpa using new
        exact .node isInline nonempty fun child childIn =>
          insideSplit child (List.mem_append_right _ childIn)

/-- Moves build inline trees only. -/
theorem Moves.inline {before after : Draft} (moves : Moves before after)
    (shape : before.Inline) : after.Inline := by
  obtain ⟨_, draws⟩ := moves
  induction draws with
  | stay => exact shape
  | trans _ _ first second => exact second (first shape)
  | bump goesOn => exact shape.bump goesOn
  | error => exact ⟨shape.scanned, shape.inside⟩
  | errorAt => exact ⟨shape.scanned, shape.inside⟩
  | enter isInline _ _ ih => exact (ih (shape.enter _)).leave isInline
  | wrap isInline _ _ before ih => exact (ih ((before shape).wrap _)).leave isInline

/-- How long the whole line is. -/
def total (draft : Draft) : Nat :=
  draft.offset + Token.totalLength draft.rest

theorem Took.total {taken : List Token} {before after : Draft}
    (took : Took taken before after) : after.total = before.total := by
  rw [Draft.total, Draft.total, took.offset, took.rest, Token.totalLength_append,
    Nat.add_assoc]

theorem Moves.total {before after : Draft} (moves : Moves before after) :
    after.total = before.total := by
  obtain ⟨taken, -, took⟩ := moves.took
  exact took.total

theorem Moves.offset_le {before after : Draft} (moves : Moves before after) :
    before.offset ≤ after.offset := by
  obtain ⟨taken, -, took⟩ := moves.took
  rw [took.offset]
  exact Nat.le_add_right _ _

theorem lastEnd_takeTrivia (draft : Draft) :
    draft.takeTrivia.lastEnd = draft.lastEnd ∧
      draft.offset ≤ draft.takeTrivia.offset :=
  ⟨rfl, Nat.le_add_right _ _⟩

/-- Behind a token that has been taken, the last significant token ends
further on, and never behind the offset. -/
theorem Moves.lastEnd {before after : Draft} (moves : Moves before after)
    (bounded : before.lastEnd ≤ before.offset) :
    before.lastEnd ≤ after.lastEnd ∧ after.lastEnd ≤ after.offset := by
  obtain ⟨_, draws⟩ := moves
  induction draws with
  | stay => exact ⟨Nat.le_refl _, bounded⟩
  | trans _ _ first second =>
      have early := first bounded
      have late := second early.2
      exact ⟨Nat.le_trans early.1 late.1, late.2⟩
  | bump goesOn =>
      obtain ⟨token, behind, ahead, -⟩ := upcoming_of_not_atLineEnd goesOn
      rw [bump_of_upcoming ahead]
      simp only [nextStart, Nat.le_refl, and_true]
      omega
  | error => exact ⟨Nat.le_refl _, bounded⟩
  | errorAt => exact ⟨Nat.le_refl _, bounded⟩
  | @enter _ _ role kind draft inner _ _ _ ih =>
      exact ih (Nat.le_trans bounded (lastEnd_takeTrivia draft).2)
  | wrap _ _ _ before ih =>
      have early := before bounded
      have late := ih early.2
      exact ⟨Nat.le_trans early.1 late.1, late.2⟩

/-- Every fault found so far stands inside the line, and in front of the line's
end if that is still to come. -/
def Reported (draft : Draft) : Prop :=
  ∀ diagnostic ∈ draft.diagnostics,
    diagnostic.span.Within draft.total ∧
      (Token.EndsLine draft.rest → diagnostic.start < draft.total)

theorem endsLine_of_suffix {tokens rest : List Token} (suffix : rest <:+ tokens)
    (ends : Token.EndsLine rest) : Token.EndsLine tokens := by
  obtain ⟨taken, rfl⟩ := suffix
  obtain ⟨body, last, rfl, isEol⟩ := ends
  exact ⟨taken ++ body, last, by simp, isEol⟩

theorem endsLine_of_took {taken : List Token} {before after : Draft}
    (unbroken : Token.Unbroken taken) (took : Took taken before after)
    (ends : Token.EndsLine before.rest) : Token.EndsLine after.rest := by
  rw [took.rest] at ends
  apply ends.of_append
  intro exhausted
  obtain ⟨body, last, split, isEol⟩ := ends
  rw [exhausted, List.append_nil] at split
  exact absurd isEol (unbroken last (by simp [split]))

theorem length_pos_of_endsLine {tokens : List Token}
    (scanned : ∀ token ∈ tokens, Scan.IsScanned token)
    (ends : Token.EndsLine tokens) : 0 < Token.totalLength tokens := by
  obtain ⟨body, last, rfl, -⟩ := ends
  have positive : 0 < last.length :=
    List.length_pos_iff.mpr (scanned last (by simp)).text_ne_nil
  simp only [Token.totalLength_append, Token.totalLength]
  omega

theorem total_eq (draft : Draft) :
    draft.total = draft.nextStart + Token.totalLength draft.upcoming := by
  rw [total, nextStart, ← draft.trivia_append_upcoming, Token.totalLength_append,
    Nat.add_assoc]

theorem nextSpan_within (draft : Draft) : draft.nextSpan.Within draft.total := by
  refine ⟨Nat.le_add_right _ _, ?_⟩
  rw [total_eq, nextSpan]
  cases draft.upcoming with
  | nil => simp
  | cons token behind => simp [Token.totalLength]

theorem nextSpan_start_lt {draft : Draft} {token : Token} {behind : List Token}
    (scanned : ∀ token ∈ draft.rest, Scan.IsScanned token)
    (ahead : draft.upcoming = token :: behind) :
    draft.nextSpan.start < draft.total := by
  have positive : 0 < token.length := by
    apply List.length_pos_iff.mpr
    apply (scanned token _).text_ne_nil
    rw [← draft.trivia_append_upcoming, ahead]
    simp
  rw [total_eq, ahead, Token.totalLength]
  change draft.nextStart < _
  omega

theorem upcoming_ne_nil {draft : Draft} (ends : Token.EndsLine draft.rest) :
    draft.upcoming ≠ [] := by
  intro ahead
  obtain ⟨body, last, split, isEol⟩ := ends
  have allTrivia := draft.trivia_append_upcoming
  rw [ahead, List.append_nil] at allTrivia
  exact absurd isEol (unbroken_trivia draft last (by simp [allTrivia, split]))

theorem Moves.reported {before after : Draft} (moves : Moves before after)
    (scanned : ∀ token ∈ before.rest, Scan.IsScanned token)
    (reported : before.Reported) : after.Reported := by
  obtain ⟨_, draws⟩ := moves
  induction draws with
  | stay => exact reported
  | trans firstMoves _ first second =>
      apply second _ (first scanned reported)
      intro token member
      exact scanned token ((Moves.rest_suffix ⟨_, firstMoves⟩).subset member)
  | @bump draft goesOn =>
      have same := (Moves.bump goesOn).total
      have suffix := (Moves.bump goesOn).rest_suffix
      intro diagnostic member
      obtain ⟨token, behind, ahead, -⟩ := upcoming_of_not_atLineEnd goesOn
      have old : diagnostic ∈ draft.diagnostics := by
        rwa [bump_of_upcoming ahead] at member
      rw [same]
      exact ⟨(reported diagnostic old).1, fun ends =>
        (reported diagnostic old).2 (endsLine_of_suffix suffix ends)⟩
  | error cause draft =>
      intro diagnostic member
      rcases List.mem_cons.mp member with rfl | old
      · refine ⟨nextSpan_within draft, ?_⟩
        intro ends
        obtain ⟨token, behind, ahead⟩ :=
          List.exists_cons_of_ne_nil (upcoming_ne_nil ends)
        exact nextSpan_start_lt scanned ahead
      · exact reported diagnostic old
  | @errorAt cause span draft ordered taken =>
      intro diagnostic member
      rcases List.mem_cons.mp member with rfl | old
      · refine ⟨⟨ordered, Nat.le_trans taken (Nat.le_add_right _ _)⟩, ?_⟩
        intro ends
        have positive := length_pos_of_endsLine scanned ends
        change span.start < draft.offset + Token.totalLength draft.rest
        omega
      · exact reported diagnostic old
  | @enter _ _ role kind draft inner _ _ _ ih =>
      have took := took_enter role draft
      have suffix : (draft.enter role).rest <:+ draft.rest := ⟨_, took.rest.symm⟩
      apply ih
      · intro token member
        exact scanned token (suffix.subset member)
      · intro diagnostic member
        rw [took.total]
        exact ⟨(reported diagnostic member).1, fun ends =>
          (reported diagnostic member).2 (endsLine_of_suffix suffix ends)⟩
  | wrap _ operandMoves _ before ih =>
      refine ih (fun token member => ?_) (before scanned reported)
      exact scanned token ((Moves.rest_suffix ⟨_, operandMoves⟩).subset member)

end Draft
end Asm6502
