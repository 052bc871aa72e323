import Asm6502.Proofs.GrammarCongruence
import Asm6502.Proofs.TwinDrafts
import Asm6502.Proofs.WritingRules

/-!
# Errors of a line

Recovery builds a node of errors and reports it in separate steps.  All the same each
node of errors holds just tokens and is reported with exactly its span, and each report
starts at a significant token or stands at the end of the line.  Every operation of the
grammar keeps this; only recovery and a stray token add to it.
-/

namespace Asm6502

namespace Tree

mutual

/-- Of a tree that starts at an offset: its nodes of errors hold just tokens, and their
spans are among the given ones. -/
def Flagged (spans : List Span) : (start : Nat) → Tree → Prop
  | _, .token _ _ => True
  | start, .node kind children =>
      (kind = .errorNode →
        (∀ child ∈ children, child.isToken = true) ∧
          ⟨start, start + totalLength children⟩ ∈ spans) ∧
      AllFlagged spans start children

def AllFlagged (spans : List Span) : (start : Nat) → List Tree → Prop
  | _, [] => True
  | start, tree :: rest =>
      tree.Flagged spans start ∧ AllFlagged spans (start + tree.length) rest

end

variable {spans more : List Span} {start : Nat} {trees : List Tree}

theorem allFlagged_append {others : List Tree} :
    AllFlagged spans start (trees ++ others) ↔
      AllFlagged spans start trees ∧ AllFlagged spans (start + totalLength trees) others := by
  induction trees generalizing start with
  | nil => simp [AllFlagged, totalLength]
  | cons tree rest ih =>
      rw [List.cons_append, AllFlagged, AllFlagged, totalLength, ih, and_assoc, Nat.add_assoc]

theorem allFlagged_singleton {tree : Tree} :
    AllFlagged spans start [tree] ↔ tree.Flagged spans start := by
  simp [AllFlagged]

theorem AllFlagged.of_split {before after : List Tree} {tree : Tree}
    (flagged : AllFlagged spans start (before ++ tree :: after)) :
    tree.Flagged spans (start + totalLength before) :=
  (allFlagged_append.mp flagged).2.1

theorem allFlagged_of_split
    (each : ∀ before tree after, trees = before ++ tree :: after →
      tree.Flagged spans (start + totalLength before)) :
    AllFlagged spans start trees := by
  induction trees generalizing start with
  | nil => trivial
  | cons tree rest ih =>
      refine ⟨each [] tree rest rfl, ih fun before other after split => ?_⟩
      rw [Nat.add_assoc]
      exact each (tree :: before) other after (by rw [split, List.cons_append])

theorem allFlagged_of_isToken (tokens : ∀ tree ∈ trees, tree.isToken = true) :
    AllFlagged spans start trees := by
  apply allFlagged_of_split
  rintro before tree after rfl
  have isToken := tokens tree (by simp)
  cases tree with
  | token => trivial
  | node => contradiction

theorem Flagged.shift {tree : Tree} (amount : Nat)
    (included : ∀ span ∈ spans, span.shift amount ∈ more)
    (flagged : tree.Flagged spans start) : tree.Flagged more (start + amount) := by
  induction tree using Tree.induct generalizing start with
  | token => trivial
  | node kind children ih =>
      obtain ⟨here, below⟩ := flagged
      constructor
      · intro isError
        obtain ⟨tokens, reported⟩ := here isError
        refine ⟨tokens, ?_⟩
        have moved := included _ reported
        rwa [Span.shift, Nat.add_right_comm] at moved
      · apply allFlagged_of_split
        rintro before tree after rfl
        rw [Nat.add_right_comm]
        exact ih tree (by simp) below.of_split

theorem AllFlagged.mono (included : spans ⊆ more) (flagged : AllFlagged spans start trees) :
    AllFlagged more start trees := by
  apply allFlagged_of_split
  rintro before tree after rfl
  exact flagged.of_split.shift 0 fun span member => included member

end Tree

namespace Sketch

variable {τ : Type} {spans : List Span}

theorem totalLength_forest_leave (sketch : Sketch τ) (kind : Kind) :
    Tree.totalLength (sketch.leave kind).forest = Tree.totalLength sketch.forest := by
  rw [← Tree.leafLength_allLeaves, allLeaves_forest_leave, Tree.leafLength_allLeaves]

theorem allFlagged_leave {kind : Kind} (notError : kind ≠ .errorNode) {sketch : Sketch τ}
    (flagged : Tree.AllFlagged spans 0 sketch.forest) :
    Tree.AllFlagged spans 0 (sketch.leave kind).forest := by
  rcases forest_leave sketch kind with same | ⟨before, children, -, split, left⟩
  · rwa [same]
  · rw [split, Tree.allFlagged_append] at flagged
    rw [left, Tree.allFlagged_append, Tree.allFlagged_singleton]
    exact ⟨flagged.1, fun isError => absurd isError notError, flagged.2⟩

end Sketch

namespace Span

/-- The span starts where a significant token does. -/
def StartsAtToken (tokens : List Token) (span : Span) : Prop :=
  ∃ before token after, tokens = before ++ token :: after ∧ token.isTrivia = false ∧
    span.start = Token.totalLength before

/-- The span starts where a significant token does, or is the empty one at the end. -/
def Anchored (tokens : List Token) (span : Span) : Prop :=
  span.StartsAtToken tokens ∨ span = .empty (Token.totalLength tokens)

end Span

namespace Draft

variable {line : List Token} {draft after : Draft}

theorem At.startsAtToken {index : Nat} (stands : At line index draft) {token : Token}
    {behind : List Token} (ahead : draft.upcoming = token :: behind) {span : Span}
    (start : span.start = draft.nextStart) : span.StartsAtToken line := by
  refine ⟨line.take index ++ draft.trivia, token, behind, ?_,
    not_isTrivia_of_upcoming ahead, ?_⟩
  · rw [List.append_assoc, ← ahead, draft.trivia_append_upcoming, stands.rest,
      List.take_append_drop]
  · rw [start, Draft.nextStart, stands.offset, Token.totalLength_append]
    rfl

theorem At.anchored {index : Nat} (stands : At line index draft) :
    draft.nextSpan.Anchored line := by
  cases ahead : draft.upcoming with
  | cons token behind => exact .inl (stands.startsAtToken ahead rfl)
  | nil =>
      have start : draft.nextStart = Token.totalLength line := by
        have rest := draft.trivia_append_upcoming
        rw [ahead, List.append_nil, stands.rest] at rest
        rw [Draft.nextStart, stands.offset, Token.startAt, rest, ← Token.totalLength_append,
          List.take_append_drop]
      right
      rw [Draft.nextSpan, ahead, start]
      rfl

theorem isToken_of_mem_leaves (tokens : List Token) :
    ∀ tree ∈ (tokens.map Written.leaf).map Written.tree, tree.isToken = true := by
  rw [allTrees_leaves]
  intro tree member
  obtain ⟨token, -, rfl⟩ := List.mem_map.mp member
  rfl

theorem allFlagged_leaves (spans : List Span) (start : Nat) (tokens : List Token) :
    Tree.AllFlagged spans start ((tokens.map Written.leaf).map Written.tree) :=
  Tree.allFlagged_of_isToken (isToken_of_mem_leaves tokens)

/-- The nodes of errors that stand in the draft of a line hold just tokens and have been
reported, and the reports are anchored. -/
structure Flagged (line : List Token) (draft : Draft) : Prop where
  taken : ∃ index, At line index draft
  length : Tree.totalLength draft.sketch.forest = draft.offset
  nodes : Tree.AllFlagged (draft.diagnostics.map Diagnostic.span) 0 draft.sketch.forest
  starts : ∀ diagnostic ∈ draft.diagnostics, diagnostic.span.Anchored line

namespace Flagged

variable {trees : List Written} {reports : List Diagnostic}

theorem start (line : List Token) : Flagged line { rest := line } where
  taken := ⟨0, Nat.zero_le _, rfl, rfl⟩
  length := rfl
  nodes := trivial
  starts _ member := absurd member List.not_mem_nil

/-- Added trees have to be flagged by the reports that are added with them. -/
theorem wrote (flagged : Flagged line draft) (wrote : Wrote trees reports draft after)
    (nodes : Tree.AllFlagged (reports.map Diagnostic.span) draft.offset
      (trees.map Written.tree))
    (starts : ∀ diagnostic ∈ reports, diagnostic.span.Anchored line) : Flagged line after := by
  have rest : draft.rest = Written.allTokens trees ++ after.rest := wrote.rest
  have offset : after.offset = draft.offset + Token.totalLength (Written.allTokens trees) :=
    wrote.offset
  have forest : after.sketch.forest = draft.sketch.forest ++ trees.map Written.tree := by
    rw [wrote.sketch]
    exact Sketch.forest_addAll _ _
  obtain ⟨index, stands⟩ := flagged.taken
  refine ⟨⟨_, stands.append rest offset⟩, ?_, ?_, ?_⟩
  · rw [forest, Tree.totalLength_append, flagged.length, Written.totalLength_map_tree, offset]
  · rw [forest, wrote.diagnostics, List.map_append, Tree.allFlagged_append, flagged.length,
      Nat.zero_add]
    exact ⟨flagged.nodes.mono (List.subset_append_right _ _),
      nodes.mono (List.subset_append_left _ _)⟩
  · rw [wrote.diagnostics]
    intro diagnostic member
    rcases List.mem_append.mp member with new | old
    · exact starts diagnostic new
    · exact flagged.starts diagnostic old

theorem congr (flagged : Flagged line draft) (rest : after.rest = draft.rest)
    (offset : after.offset = draft.offset)
    (forest : after.sketch.forest = draft.sketch.forest)
    (diagnostics : after.diagnostics = draft.diagnostics) : Flagged line after where
  taken := flagged.taken.imp fun _ stands => stands.congr rest offset
  length := by rw [forest, offset, flagged.length]
  nodes := by
    rw [forest, diagnostics]
    exact flagged.nodes
  starts := by
    rw [diagnostics]
    exact flagged.starts

theorem takeTrivia (flagged : Flagged line draft) : Flagged line draft.takeTrivia :=
  flagged.wrote (wrote_takeTrivia draft) (allFlagged_leaves _ _ _)
    fun _ member => absurd member List.not_mem_nil

theorem bump (flagged : Flagged line draft) : Flagged line draft.bump := by
  cases ahead : draft.upcoming with
  | nil =>
      have stays : draft.bump = draft := by simp [Draft.bump, ahead]
      rwa [stays]
  | cons token behind =>
      have leaves := allFlagged_leaves [] draft.offset (draft.trivia ++ [token])
      rw [List.map_append, List.map_singleton] at leaves
      exact flagged.wrote (wrote_bump ahead) leaves
        fun _ member => absurd member List.not_mem_nil

theorem enter (flagged : Flagged line draft) (role : Role) : Flagged line (draft.enter role) :=
  flagged.takeTrivia.congr rfl rfl (Sketch.forest_enter _ _) rfl

theorem wrap (flagged : Flagged line draft) (role : Role) : Flagged line (draft.wrap role) :=
  flagged.congr rfl rfl (Sketch.forest_wrap _ _) rfl

theorem leave {kind : Kind} (notError : kind ≠ .errorNode) (flagged : Flagged line draft) :
    Flagged line (draft.leave kind) where
  taken := flagged.taken.imp fun _ stands => stands.congr rfl rfl
  length := (Sketch.totalLength_forest_leave _ _).trans flagged.length
  nodes := Sketch.allFlagged_leave notError flagged.nodes
  starts := flagged.starts

theorem error (flagged : Flagged line draft) (cause : Cause) :
    Flagged line (draft.error cause) := by
  refine flagged.wrote (wrote_error cause draft) trivial fun diagnostic member => ?_
  obtain ⟨index, stands⟩ := flagged.taken
  rw [List.mem_singleton.mp member]
  exact stands.anchored

theorem errorNode (flagged : Flagged line draft) {behind : List Token} {token : Token}
    (tokens : List Token) (ahead : draft.upcoming = token :: behind) {message : String}
    {span : Span}
    (wrote : Wrote (draft.trivia.map .leaf ++ [.node .errorNode (tokens.map .leaf)])
      [⟨message, span⟩] draft after)
    (spanEq : span = ⟨draft.nextStart, draft.nextStart + Token.totalLength tokens⟩) :
    Flagged line after := by
  obtain ⟨index, stands⟩ := flagged.taken
  refine flagged.wrote wrote ?_ fun diagnostic member => ?_
  · rw [List.map_singleton, List.map_append, Tree.allFlagged_append, List.map_singleton,
      Tree.allFlagged_singleton, Written.totalLength_map_tree, Written.allTokens_map_leaf,
      Written.tree_node]
    refine ⟨allFlagged_leaves _ _ _, fun _ => ⟨isToken_of_mem_leaves tokens, ?_⟩,
      allFlagged_leaves _ _ _⟩
    rw [Written.totalLength_map_tree, Written.allTokens_map_leaf, spanEq]
    exact List.mem_singleton_self _
  · rw [List.mem_singleton.mp member]
    exact .inl (stands.startsAtToken ahead (by rw [spanEq]))

end Flagged

theorem wrote_takeTokens_go {σ : Type} (next : σ → Kind → Option σ) (tokens : List Token)
    (state : σ) (draft : Draft) :
    ∃ taken : List Token,
      Wrote (taken.map .leaf) [] draft (takeTokens.go next tokens state draft).2 ∧
        (draft.lastEnd = draft.offset →
          (takeTokens.go next tokens state draft).2.lastEnd =
            (takeTokens.go next tokens state draft).2.offset) := by
  induction tokens generalizing state draft with
  | nil => exact ⟨[], builds_refl draft, id⟩
  | cons token tokens ih =>
      unfold takeTokens.go
      split
      · exact ⟨[], builds_refl draft, id⟩
      · next goesOn =>
          split
          · exact ⟨[], builds_refl draft, id⟩
          · next state' _ =>
              obtain ⟨token, behind, ahead, -⟩ :=
                upcoming_of_not_atLineEnd (by simpa using goesOn)
              obtain ⟨taken, wrote, lastEnd⟩ := ih state' draft.bump
              refine ⟨draft.trivia ++ [token] ++ taken, ?_, fun _ => lastEnd ?_⟩
              · have whole := (wrote_bump ahead).append wrote
                simpa using whole
              · rw [bump_of_upcoming ahead]

theorem wrote_skip (stop : Kind → Bool) (goesOn : draft.atLineEnd = false) :
    ∃ tokens : List Token,
      Wrote (draft.trivia.map .leaf ++ [.node .errorNode (tokens.map .leaf)]) [] draft
          (draft.skip stop) ∧
        (draft.skip stop).lastEnd = (draft.skip stop).offset := by
  obtain ⟨token, behind, ahead, -⟩ := upcoming_of_not_atLineEnd goesOn
  have entered : (draft.enter .plain).upcoming = token :: behind := by
    rw [upcoming_enter, ahead]
  obtain ⟨taken, wrote, lastEnd⟩ := wrote_takeTokens_go
    (fun _ kind => if stop kind then none else some ())
    (draft.enter .plain).bump.rest () (draft.enter .plain).bump
  have inside := (wrote_bump entered).append wrote
  rw [trivia_enter] at inside
  have left := wrote_leave inside (by simp) .errorNode
  refine ⟨token :: taken, left, lastEnd ?_⟩
  rw [bump_of_upcoming entered]

namespace Flagged

theorem recover (flagged : Flagged line draft) (cause : Cause) (stop : Kind → Bool) :
    Flagged line (draft.recover cause stop) := by
  cases ended : draft.atLineEnd with
  | true =>
      rw [Draft.recover, if_pos ended]
      exact flagged.error cause
  | false =>
      obtain ⟨token, behind, ahead, -⟩ := upcoming_of_not_atLineEnd ended
      obtain ⟨tokens, wrote, lastEnd⟩ := wrote_skip stop ended
      rw [recover_of_not_atLineEnd ended]
      have whole := wrote.append (wrote_errorAt cause
        ⟨draft.nextStart, (draft.skip stop).lastEnd⟩ (draft.skip stop))
      rw [List.append_nil] at whole
      refine flagged.errorNode tokens ahead whole ?_
      · rw [lastEnd, wrote.offset]
        simp [Frame.allTokens, Written.allTokens, Written.tokens_node, nextStart, Nat.add_assoc]

theorem stray (flagged : Flagged line draft) (goesOn : draft.atLineEnd = false) :
    Flagged line (Expression.primary.stray draft) := by
  obtain ⟨token, behind, ahead, -⟩ := upcoming_of_not_atLineEnd goesOn
  have entered : ((draft.enter .plain).error .expectedExpression).upcoming = token :: behind :=
    (upcoming_enter .plain draft).trans ahead
  have inside := (wrote_error .expectedExpression (draft.enter .plain)).append
    (wrote_bump entered)
  have left := wrote_leave inside (by simp) .errorNode
  have noTrivia : ((draft.enter .plain).error .expectedExpression).trivia = [] :=
    trivia_enter .plain draft
  rw [noTrivia] at left
  refine flagged.errorNode [token] ahead left ?_
  have start : (draft.enter .plain).nextStart = draft.nextStart := by
    rw [nextStart, trivia_enter]
    rfl
  rw [nextSpan, upcoming_enter, ahead, start]
  rfl

end Flagged

/-- Where two drafts are equal and flagged, so they are behind all of the grammar. -/
theorem congruence_flagged (line : List Token) :
    Congruence fun draft other => draft = other ∧ Flagged line draft where
  looksLike := by
    rintro draft _ ⟨rfl, -⟩
    exact ⟨List.forall₂_same.mpr fun token _ => ⟨rfl, fun _ => rfl⟩, rfl⟩
  takeTrivia := by
    rintro draft _ ⟨rfl, flagged⟩
    exact ⟨rfl, flagged.takeTrivia⟩
  bump := by
    rintro draft _ ⟨rfl, flagged⟩
    exact ⟨rfl, flagged.bump⟩
  enter role := by
    rintro ⟨rfl, flagged⟩
    exact ⟨rfl, flagged.enter role⟩
  wrap role := by
    rintro ⟨rfl, flagged⟩
    exact ⟨rfl, flagged.wrap role⟩
  leave notError := by
    rintro ⟨rfl, flagged⟩
    exact ⟨rfl, flagged.leave notError⟩
  error cause := by
    rintro ⟨rfl, flagged⟩
    exact ⟨rfl, flagged.error cause⟩
  recover cause stop := by
    rintro ⟨rfl, flagged⟩
    exact ⟨rfl, flagged.recover cause stop⟩
  recoverWord stop := by
    rintro ⟨rfl, flagged⟩ _
    exact ⟨rfl, flagged.recover _ stop⟩
  stray := by
    rintro draft _ ⟨rfl, flagged⟩ goesOn
    exact ⟨rfl, flagged.stray goesOn⟩

end Draft

namespace Line

/-- The nodes of errors in a line hold just tokens and are reported, and what is said
about the line is anchored in it. -/
structure Flagged (tokens : List Token) (line : Line) : Prop where
  nodes : line.tree.Flagged (line.diagnostics.map Diagnostic.span) 0
  starts : ∀ diagnostic ∈ line.diagnostics, diagnostic.span.Anchored tokens
  opens :
    ∀ block keyword, line.edge? = some (.opens block keyword) → keyword.StartsAtToken tokens

variable (dialect : Dialect) (block? : Option BlockKind) {tokens : List Token}

theorem startsAtToken_of_agree {block : BlockKind} {keyword : Span}
    {edge? other? : Option BlockEdge}
    (agree : BlockEdge.Agree (fun draft other => draft = other ∧ Draft.Flagged tokens draft)
      edge? other?)
    (opens : edge? = some (.opens block keyword)) : keyword.StartsAtToken tokens := by
  cases agree with
  | none => cases opens
  | closes => cases opens
  | opens _ related isWord =>
      obtain ⟨-, flagged⟩ := related
      obtain ⟨index, stands⟩ := flagged.taken
      obtain ⟨token, behind, ahead, -⟩ :=
        Draft.upcoming_of_not_atLineEnd (Draft.not_atLineEnd_of_peek isWord rfl)
      cases opens
      exact stands.startsAtToken ahead rfl

theorem flagged_read (scanned : ∀ token ∈ tokens, Scan.IsScanned token)
    (isLine : Token.IsLine tokens) : Flagged tokens (read dialect block? tokens) := by
  obtain ⟨⟨-, flagged⟩, edges⟩ := alike_outcome (Draft.congruence_flagged tokens) dialect block?
    ⟨rfl, .start tokens⟩
  have ended : (outcome dialect block? tokens).1 = finish (stated dialect block? tokens) := by
    rw [outcome, stated, ← lineEnd_eq]
  have trees := trees_stated dialect block? scanned isLine
  rw [← ended] at trees
  rw [read_eq_outcome]
  refine ⟨⟨fun isError => absurd isError (by decide), ?_⟩, ?_,
    fun _ _ opens => startsAtToken_of_agree edges opens⟩
  · rw [trees]
    exact flagged.nodes.mono fun span member => by simpa using member
  · exact fun diagnostic member => flagged.starts diagnostic (List.mem_reverse.mp member)

end Line
end Asm6502
