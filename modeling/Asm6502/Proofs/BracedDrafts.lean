import Asm6502.Proofs.AstrayTokens
import Asm6502.Proofs.BracedTokens
import Asm6502.Proofs.LockstepGrammar

/-!
# Drafts in front of a list in braces

Two lines that differ in what stands between two braces cannot be told apart by what the
grammar sees before it takes the first of these.  The rule for lists then takes all the
tokens up to the second one, whatever they are.
-/

namespace Asm6502

/-- A line in which a list in braces stands, and other tokens for these braces. -/
structure Exchange where
  front : List Token
  inside : List Token
  filler : List Token
  behind : List Token
  inside_balanced : Kind.Balanced (inside.map Token.kind)
  filler_balanced : Kind.Balanced (filler.map Token.kind)
  goesOn : ∀ token ∈ front ++ (inside ++ filler), token.kind.endsLine = false
  behind_whole : ∀ token ∈ behind, token.kind ≠ .eof

namespace Exchange

variable (exchange : Exchange)

def line : List Token :=
  exchange.front ++ (Token.braced exchange.inside ++ exchange.behind)

/-- The line with the other tokens. -/
def other : List Token :=
  exchange.front ++ (Token.braced exchange.filler ++ exchange.behind)

def position : Nat :=
  Token.totalLength exchange.front

theorem front_whole : ∀ token ∈ exchange.front, token.kind ≠ .eof := by
  intro token member isEof
  have goesOn := exchange.goesOn token (List.mem_append_left _ member)
  rw [isEof] at goesOn
  contradiction

end Exchange

namespace Draft

section Marked

variable {draft : Draft} {mark : Token} {ahead behind : List Token}
  (rest : draft.rest = ahead ++ mark :: behind) (significant : mark.isTrivia = false)
include rest significant

theorem trivia_of_rest : draft.trivia = ahead.takeWhile Token.isTrivia := by
  rw [trivia, rest]
  clear rest
  induction ahead with
  | nil => rw [List.nil_append, List.takeWhile_cons_of_neg (by simp [significant])]; rfl
  | cons token ahead ih => rw [List.cons_append, List.takeWhile_cons, List.takeWhile_cons, ih]

theorem upcoming_append_of_rest :
    draft.upcoming = ahead.dropWhile Token.isTrivia ++ mark :: behind := by
  rw [upcoming, rest]
  clear rest
  induction ahead with
  | nil => exact List.dropWhile_cons_of_neg (by simp [significant])
  | cons token ahead ih =>
      rw [List.cons_append, List.dropWhile_cons, List.dropWhile_cons]
      split
      · exact ih
      · rfl

theorem upcoming_cases :
    (draft.trivia = ahead ∧ draft.upcoming = mark :: behind) ∨
      ∃ token later, ahead = draft.trivia ++ token :: later ∧
        draft.upcoming = token :: (later ++ mark :: behind) := by
  have split := ahead.takeWhile_append_dropWhile (p := Token.isTrivia)
  rw [upcoming_append_of_rest rest significant, trivia_of_rest rest significant]
  cases passed : ahead.dropWhile Token.isTrivia with
  | nil =>
      rw [passed, List.append_nil] at split
      exact .inl ⟨split, rfl⟩
  | cons token later =>
      rw [passed] at split
      exact .inr ⟨token, later, split.symm, rfl⟩

end Marked

section Braced

variable {draft other : Draft} {ahead list list' behind behind' : List Token}
  (rest : draft.rest = ahead ++ (Token.braced list ++ behind))
  (rest' : other.rest = ahead ++ (Token.braced list' ++ behind'))
include rest

theorem trivia_of_braced : draft.trivia = ahead.takeWhile Token.isTrivia :=
  @trivia_of_rest _ Token.leftBrace _ _ rest rfl

theorem upcoming_of_braced :
    draft.upcoming = ahead.dropWhile Token.isTrivia ++ (Token.braced list ++ behind) :=
  @upcoming_append_of_rest _ Token.leftBrace _ _ rest rfl

theorem upcoming_braced_cases :
    (draft.trivia = ahead ∧ draft.upcoming = Token.braced list ++ behind) ∨
      ∃ token later, ahead = draft.trivia ++ token :: later ∧
        draft.upcoming = token :: (later ++ (Token.braced list ++ behind)) :=
  @upcoming_cases _ Token.leftBrace _ _ rest rfl

include rest'

theorem tokenAt?_zero_of_braced : draft.tokenAt? 0 = other.tokenAt? 0 := by
  rw [tokenAt?_zero, tokenAt?_zero, upcoming_of_braced rest, upcoming_of_braced rest']
  cases ahead.dropWhile Token.isTrivia <;> rfl

/-- The grammar sees lists in braces alike, as it never looks behind the first brace. -/
theorem seesAlike_of_braced (role : draft.role = other.role) : SeesAlike draft other where
  role := role
  first := tokenAt?_zero_of_braced rest rest'
  second := by
    intro notBrace
    have here := upcoming_of_braced rest
    have there := upcoming_of_braced rest'
    cases significant : ahead.dropWhile Token.isTrivia with
    | nil =>
        rw [significant] at here
        exact absurd (peek_of_upcoming here) notBrace
    | cons token later =>
        rw [significant] at here there
        have passed : draft.bump.rest = later ++ (Token.braced list ++ behind) := by
          rw [bump_of_upcoming here]
          rfl
        have passed' : other.bump.rest = later ++ (Token.braced list' ++ behind') := by
          rw [bump_of_upcoming there]
          rfl
        rw [tokenAt?_succ here, tokenAt?_succ there, tokenAt?_zero_of_braced passed passed']
  atMacroCall := by
    unfold Expression.atMacroCall
    rw [upcoming_of_braced rest, upcoming_of_braced rest']
    cases ahead.dropWhile Token.isTrivia with
    | nil => cases list <;> cases list' <;> rfl
    | cons token later => cases later <;> rfl
  head := by
    rw [rest, rest']
    cases ahead <;> rfl

end Braced

end Draft

section TakeTokens

variable {σ : Type} {next : σ → Kind → Option σ} {state state' : σ} {draft : Draft}
  (goesOn : draft.atLineEnd = false) (accepted : next state draft.peek = some state')
include goesOn accepted

theorem Draft.takeTokens_go_of_accepted (token : Token) (fuel : List Token) :
    takeTokens.go next (token :: fuel) state draft = takeTokens.go next fuel state' draft.bump := by
  rw [takeTokens.go, if_neg (Bool.eq_false_iff.mp goesOn), accepted]

theorem Draft.takeTokens_of_accepted :
    draft.takeTokens next state = draft.bump.takeTokens next state' := by
  have shorter := length_rest_bump goesOn
  cases rest : draft.rest with
  | nil => simp [rest] at shorter
  | cons token behind =>
      rw [rest, List.length_cons] at shorter
      rw [takeTokens, rest, takeTokens_go_of_accepted goesOn accepted,
        takeTokens_of_le next state' (by omega)]

end TakeTokens

namespace Expression

open Draft

theorem step_of_braceDepth? {depth last : Nat} {kind : Kind} {kinds : List Kind}
    (counted : Kind.braceDepth? depth (kind :: kinds) = some last) :
    ∃ next, braced.step (depth + 1) kind = some (next + 1) ∧
      Kind.braceDepth? next kinds = some last := by
  unfold Kind.braceDepth? at counted
  unfold braced.step
  rw [if_neg (Nat.succ_ne_zero depth)]
  split at counted
  · exact ⟨depth + 1, rfl, counted⟩
  · split at counted
    · contradiction
    · next opened =>
        refine ⟨depth - 1, ?_, counted⟩
        simp only [Option.some.injEq]
        omega
  · next notLeft notRight => exact ⟨depth, by cases kind <;> simp_all, counted⟩

theorem braceDepth?_of_trivia {tokens : List Token}
    (trivia : ∀ token ∈ tokens, token.isTrivia = true) (depth : Nat) (more : List Token) :
    Kind.braceDepth? depth ((tokens ++ more).map Token.kind) =
      Kind.braceDepth? depth (more.map Token.kind) := by
  have passed {kind : Kind} (isTrivia : kind.isTrivia = true) (kinds : List Kind) :
      Kind.braceDepth? depth (kind :: kinds) = Kind.braceDepth? depth kinds := by
    cases kind <;> first | rfl | contradiction
  induction tokens with
  | nil => rfl
  | cons token tokens ih =>
      rw [List.cons_append, List.map_cons, passed (trivia token List.mem_cons_self),
        ih fun other member => trivia other (List.mem_cons_of_mem _ member)]

theorem takeTokens_go_zero (fuel : List Token) (draft : Draft) :
    takeTokens.go braced.step fuel 0 draft = (0, draft) := by
  cases fuel with
  | nil => rfl
  | cons token fuel =>
      rw [takeTokens.go]
      split <;> rfl

theorem takeTokens_go_of_balanced {inside behind : List Token} (fuel : List Token) {depth : Nat}
    {draft : Draft} (rest : draft.rest = inside ++ Token.rightBrace :: behind)
    (balanced : Kind.braceDepth? depth (inside.map Token.kind) = some 0)
    (goesOn : ∀ token ∈ inside, token.kind.endsLine = false)
    (enough : draft.rest.length ≤ fuel.length) :
    (takeTokens.go braced.step fuel (depth + 1) draft).1 = 0 ∧
      Wrote ((inside ++ [Token.rightBrace]).map .leaf) [] draft
        (takeTokens.go braced.step fuel (depth + 1) draft).2 := by
  induction fuel generalizing inside depth draft with
  | nil => simp [rest] at enough
  | cons first fuel ih =>
      rcases upcoming_cases rest rfl with ⟨all, closing⟩ | ⟨token, later, split, next⟩
      · -- What is left in front of the closing brace are trivia.
        have trivial : ∀ token ∈ inside, token.isTrivia = true :=
          fun token member => isTrivia_of_mem_trivia (all ▸ member)
        have closed := braceDepth?_of_trivia trivial depth []
        rw [List.append_nil, balanced] at closed
        obtain rfl : depth = 0 := (Option.some.inj closed).symm
        have peek : draft.peek = .rightBrace := peek_of_upcoming closing
        have accepted : braced.step (0 + 1) draft.peek = some 0 := by
          rw [peek]
          rfl
        rw [takeTokens_go_of_accepted (not_atLineEnd_of_peek peek rfl) accepted,
          takeTokens_go_zero, List.map_append, ← all]
        exact ⟨rfl, wrote_bump closing⟩
      · have trivial : ∀ token ∈ draft.trivia, token.isTrivia = true :=
          fun token => isTrivia_of_mem_trivia
        have member : token ∈ inside := by
          rw [split]
          simp
        have peek : draft.peek = token.kind := peek_of_upcoming next
        have goes : draft.atLineEnd = false := not_atLineEnd_of_peek peek (goesOn token member)
        rw [split, braceDepth?_of_trivia trivial, List.map_cons] at balanced
        obtain ⟨depth', accepted, balanced'⟩ := step_of_braceDepth? balanced
        rw [← peek] at accepted
        have passed : draft.bump.rest = later ++ Token.rightBrace :: behind := by
          rw [bump_of_upcoming next]
        have shorter := length_rest_bump goes
        obtain ⟨closed, wrote⟩ := @ih later depth' draft.bump passed balanced'
          (fun other otherIn => goesOn other (by rw [split]; simp [otherIn]))
          (by rw [List.length_cons] at enough; omega)
        rw [takeTokens_go_of_accepted goes accepted]
        refine ⟨closed, ?_⟩
        have whole := (wrote_bump next).append wrote
        rw [split]
        simpa using whole

/-- A list has become a node behind the trivia in front of it. -/
structure TakesList (list behind : List Token) (draft after : Draft) : Prop where
  rest : after.rest = behind
  offset : after.offset = draft.nextStart + Token.totalLength list
  sketch : after.sketch =
    (draft.sketch.addAll (draft.trivia.map leaf)).add (.node .macroArg (list.map leaf))
  diagnostics : after.diagnostics = draft.diagnostics

theorem takesList_of_wrote {list behind : List Token} {draft after : Draft}
    (wrote : Wrote (draft.trivia.map .leaf ++ [.node .macroArg (list.map .leaf)]) [] draft after)
    (next : draft.upcoming = list ++ behind) : TakesList list behind draft after := by
  have tokens : Written.allTokens
      (draft.trivia.map .leaf ++ [.node .macroArg (list.map .leaf)]) = draft.trivia ++ list := by
    rw [Written.allTokens_append, Written.allTokens_map_leaf, Written.allTokens,
      Written.tokens_node, Written.allTokens_map_leaf, Written.allTokens, List.append_nil]
  have rest := wrote.rest
  have offset := wrote.offset
  rw [Frame.allTokens, List.nil_append, tokens] at rest offset
  refine ⟨?_, ?_, ?_, wrote.diagnostics⟩
  · rw [← trivia_append_upcoming, next, List.append_assoc, List.append_cancel_left_eq,
      List.append_cancel_left_eq] at rest
    exact rest.symm
  · rw [offset, Token.totalLength_append, nextStart, Nat.add_assoc]
  · rw [wrote.sketch, Frame.openAll, List.map_append, Sketch.addAll_append, allTrees_leaves,
      List.map_singleton, Written.tree_node, allTrees_leaves]
    rfl

/-- The rule for lists takes a list as a whole. -/
theorem takesList_braced {inside behind : List Token} {draft : Draft}
    (next : draft.upcoming = Token.braced inside ++ behind)
    (balanced : Kind.Balanced (inside.map Token.kind))
    (goesOn : ∀ token ∈ inside, token.kind.endsLine = false) :
    TakesList (Token.braced inside) behind draft (braced draft) := by
  have entered : (draft.enter .plain).upcoming =
      Token.leftBrace :: (inside ++ Token.rightBrace :: behind) := by
    rw [upcoming_enter, next, Token.braced_append]
  have rest : (draft.enter .plain).bump.rest = inside ++ Token.rightBrace :: behind := by
    rw [bump_of_upcoming entered]
  obtain ⟨closed, wrote⟩ := takeTokens_go_of_balanced (draft.enter .plain).bump.rest rest balanced
    goesOn (Nat.le_refl _)
  have inner := (wrote_bump entered).append wrote
  rw [trivia_enter] at inner
  have whole := wrote_leave inner (by simp) .macroArg
  have same : braced draft =
      ((takeTokens.go braced.step (draft.enter .plain).bump.rest (0 + 1)
        (draft.enter .plain).bump).2).leave .macroArg := by
    unfold braced node takeTokens
    dsimp only
    rw [if_pos closed]
  rw [same]
  refine takesList_of_wrote ?_ next
  simpa [Token.braced] using whole

end Expression

namespace Exchange

open Draft

/-- Two drafts have come to the same place in front of the list. -/
structure Before (exchange : Exchange) (taken ahead : List Token) (draft other : Draft) :
    Prop where
  front : exchange.front = taken ++ ahead
  rest : draft.rest = ahead ++ (Token.braced exchange.inside ++ exchange.behind)
  other_eq : other =
    { draft with rest := ahead ++ (Token.braced exchange.filler ++ exchange.behind) }
  offset : draft.offset = Token.totalLength taken
  leaves : Tree.allLeaves draft.sketch.forest = taken.map Token.pair
  reports : ∀ diagnostic ∈ draft.diagnostics, diagnostic.start ≤ exchange.position

def Ahead (exchange : Exchange) (draft other : Draft) : Prop :=
  ∃ taken ahead, Before exchange taken ahead draft other

variable {exchange : Exchange} {taken ahead later tokens : List Token}
  {draft other after after' : Draft}

namespace Before

variable (before : Before exchange taken ahead draft other)
include before

theorem otherRest :
    other.rest = ahead ++ (Token.braced exchange.filler ++ exchange.behind) := by
  rw [before.other_eq]

theorem trivia : other.trivia = draft.trivia := by
  rw [trivia_of_braced before.rest, trivia_of_braced before.otherRest]

theorem sees : SeesAlike draft other :=
  seesAlike_of_braced before.rest before.otherRest (by rw [before.other_eq]; rfl)

theorem goesOn : draft.atLineEnd = false := by
  rcases upcoming_braced_cases before.rest with ⟨-, brace⟩ | ⟨token, later, split, next⟩
  · exact not_atLineEnd_of_peek (peek_of_upcoming brace) rfl
  · have inFront : token ∈ exchange.front := by
      rw [before.front, split]
      simp
    exact not_atLineEnd_of_peek (peek_of_upcoming next)
      (exchange.goesOn token (List.mem_append_left _ inFront))

theorem length : Tree.totalLength draft.sketch.forest = Token.totalLength taken := by
  rw [← Tree.leafLength_allLeaves, before.leaves, Tree.leafLength_map_pair]

theorem standsBefore : StandsBefore exchange.position draft where
  length := by rw [before.length, before.offset]
  nextStart_le := by
    have split := ahead.takeWhile_append_dropWhile (p := Token.isTrivia)
    rw [nextStart, trivia_of_braced before.rest, before.offset, Exchange.position, before.front,
      ← split, Token.totalLength_append, Token.totalLength_append, split]
    omega

/-- Both drafts have taken the same tokens. -/
theorem took (split : ahead = tokens ++ later) (took : Took tokens draft after)
    (reports : after.diagnostics = draft.diagnostics)
    (other_eq : after' =
      { after with rest := later ++ (Token.braced exchange.filler ++ exchange.behind) }) :
    Before exchange (taken ++ tokens) later after after' where
  front := by rw [before.front, split, List.append_assoc]
  rest := by
    have rest := took.rest
    rw [before.rest, split, List.append_assoc, List.append_cancel_left_eq] at rest
    exact rest.symm
  other_eq := other_eq
  offset := by rw [took.offset, before.offset, Token.totalLength_append]
  leaves := by rw [took.leaves, before.leaves, List.map_append]
  reports := reports ▸ before.reports

theorem stays (rest : after.rest = draft.rest) (offset : after.offset = draft.offset)
    (leaves : Tree.allLeaves after.sketch.forest = Tree.allLeaves draft.sketch.forest)
    (reports : ∀ diagnostic ∈ after.diagnostics, diagnostic.start ≤ exchange.position)
    (other_eq : after' = { after with rest := other.rest }) :
    Before exchange taken ahead after after' where
  front := before.front
  rest := rest.trans before.rest
  other_eq := other_eq.trans (by rw [before.otherRest])
  offset := offset.trans before.offset
  leaves := leaves.trans before.leaves
  reports := reports

theorem enter (role : Role) : Ahead exchange (draft.enter role) (other.enter role) := by
  refine ⟨_, ahead.dropWhile Token.isTrivia, before.took ?_ (took_enter role draft) rfl ?_⟩
  · rw [trivia_of_braced before.rest, List.takeWhile_append_dropWhile]
  · rw [Draft.enter, Draft.enter, takeTrivia, takeTrivia, upcoming_of_braced before.otherRest,
      nextStart, nextStart, before.trivia, before.other_eq]

theorem bump {token : Token} (split : ahead = draft.trivia ++ token :: later)
    (next : draft.upcoming =
      token :: (later ++ (Token.braced exchange.inside ++ exchange.behind))) :
    Before exchange (taken ++ (draft.trivia ++ [token])) later draft.bump other.bump := by
  have next' : other.upcoming =
      token :: (later ++ (Token.braced exchange.filler ++ exchange.behind)) := by
    have rest := before.otherRest
    rw [← trivia_append_upcoming, before.trivia, split, List.append_assoc,
      List.append_cancel_left_eq] at rest
    exact rest
  refine before.took (by rw [split]; simp) (took_bump next) ?_ ?_
  · rw [bump_of_upcoming next]
  · rw [bump_of_upcoming next', bump_of_upcoming next, nextStart, nextStart, before.trivia,
      before.other_eq]

theorem nextSpan : other.nextSpan = draft.nextSpan := by
  have ahead := congrArg (Option.map Token.length) before.sees.first
  rw [tokenAt?_zero, tokenAt?_zero] at ahead
  rw [Draft.nextSpan, Draft.nextSpan, nextStart, nextStart, before.trivia, ← ahead,
    before.other_eq]

theorem errorAt (cause : Cause) {span : Span} (start : span.start ≤ exchange.position) :
    Before exchange taken ahead (draft.errorAt cause span) (other.errorAt cause span) :=
  before.stays rfl rfl rfl
    (fun _ member => (List.mem_cons.mp member).elim (fun same => same ▸ start)
      (before.reports _))
    (by rw [before.other_eq]; rfl)

end Before

/-- Some of the list has been taken. -/
def Passed (position : Nat) (draft : Draft) : Prop :=
  position < Tree.totalLength draft.sketch.forest

theorem persistent_passed (position : Nat) : Persistent (Passed position) where
  takeTrivia := by
    intro draft passed
    rw [Passed, takeTrivia, Sketch.forest_addAll, Tree.totalLength_append]
    exact Nat.lt_add_right _ passed
  bump := by
    intro draft passed
    cases ahead : draft.upcoming with
    | nil => simpa [Draft.bump, ahead] using passed
    | cons token behind =>
        rw [Passed, bump_of_upcoming ahead, Sketch.forest_add, Sketch.forest_addAll,
          Tree.totalLength_append, Tree.totalLength_append]
        exact Nat.lt_add_right _ (Nat.lt_add_right _ passed)
  enter := by
    intro draft role passed
    rw [Passed, Draft.enter, Sketch.forest_enter, takeTrivia, Sketch.forest_addAll,
      Tree.totalLength_append]
    exact Nat.lt_add_right _ passed
  wrap := by
    intro draft role passed
    rwa [Passed, Draft.wrap, Sketch.forest_wrap]
  leave := by
    intro draft kind passed
    rwa [Passed, Draft.leave, Sketch.totalLength_forest_leave]
  errorAt _ _ passed := passed

theorem Before.passed (before : Before exchange taken ahead draft other)
    (brace : draft.upcoming = Token.braced exchange.inside ++ exchange.behind)
    (all : draft.trivia = ahead) : Passed exchange.position draft.bump := by
  have length := (took_bump brace).leaves
  rw [before.leaves, ← List.map_append] at length
  rw [Passed, ← Tree.leafLength_allLeaves, length, Tree.leafLength_map_pair, all, position,
    before.front, ← List.append_assoc, Token.totalLength_append _ [_]]
  exact Nat.lt_add_of_pos_right (by decide)

theorem freeLockstep_ahead (exchange : Exchange) :
    FreeLockstep (Passed exchange.position) exchange.Ahead where
  persistent := persistent_passed exchange.position
  sees := fun ⟨_, _, before⟩ => before.sees
  bump := by
    rintro draft other ⟨taken, ahead, before⟩ - notBrace
    rcases upcoming_braced_cases before.rest with ⟨-, brace⟩ | ⟨token, later, split, next⟩
    · exact absurd (peek_of_upcoming brace) notBrace
    · exact ⟨_, later, before.bump split next⟩
  enter role := fun ⟨_, _, before⟩ _ => before.enter role
  wrap := by
    rintro draft other role ⟨taken, ahead, before⟩
    refine ⟨taken, ahead, before.stays rfl rfl ?_ before.reports ?_⟩
    · rw [Draft.wrap, Sketch.forest_wrap]
    · rw [before.other_eq]
      rfl
  leave := by
    rintro draft other kind ⟨taken, ahead, before⟩
    refine ⟨taken, ahead, before.stays rfl rfl ?_ before.reports ?_⟩
    · rw [Draft.leave, Sketch.allLeaves_forest_leave]
    · rw [before.other_eq]
      rfl
  error := by
    rintro draft other cause ⟨taken, ahead, before⟩
    rw [Draft.error, Draft.error, before.nextSpan]
    exact ⟨taken, ahead, before.errorAt cause before.standsBefore.nextStart_le⟩
  take := by
    rintro draft other ⟨taken, ahead, before⟩ -
    rcases upcoming_braced_cases before.rest with ⟨all, brace⟩ | ⟨token, later, split, next⟩
    · exact .inl (before.passed brace all)
    · exact .inr ⟨_, later, before.bump split next⟩
  flag := by
    rintro draft other later later' cause ⟨_, _, start⟩ ⟨taken, ahead, before⟩
    have sameStart : other.nextStart = draft.nextStart := congrArg Span.start start.nextSpan
    have sameEnd : later'.lastEnd = later.lastEnd := by rw [before.other_eq]
    rw [sameStart, sameEnd]
    exact ⟨taken, ahead, before.errorAt cause start.standsBefore.nextStart_le⟩

end Exchange
end Asm6502
