import Asm6502.Proofs.ExchangedLists

/-!
# Lines with an exchanged list

Wherever the first brace of a list is taken by another rule than the one for lists, the
list is no argument of a call, and stays none.  Otherwise two lines that differ in the
list alone are read in lockstep to their ends.  The only rule that looks through a list
is the one that tells whether an operand is indirect, so it has to judge both alike.
-/

namespace Asm6502

open List (Forall₂)

namespace Exchange

open Draft

/-- Operands that begin in front of the list are judged alike with both lists. -/
def JudgedAlike (exchange : Exchange) : Prop :=
  ∀ lead mnemonic opening, exchange.front = lead ++ mnemonic :: opening →
    mnemonic.kind = .mnemonic →
      Operand.opensIndirect
          { rest := opening ++ (Token.braced exchange.inside ++ exchange.behind) } =
        Operand.opensIndirect
          { rest := opening ++ (Token.braced exchange.filler ++ exchange.behind) }

/-- The first brace of the list has been taken to where no argument of a call begins. -/
def Lost (exchange : Exchange) (draft : Draft) : Prop :=
  Tree.HasAstray exchange.position draft.sketch.forest

/-- The two drafts have come to the same place in front of the list or behind it. -/
def Abreast (exchange : Exchange) (draft other : Draft) : Prop :=
  exchange.Ahead draft other ∨ exchange.Past draft other

variable {exchange : Exchange} {taken ahead : List Token} {draft other after : Draft}
  {kind : Kind}

namespace Before

variable (before : Before exchange taken ahead draft other)
include before

theorem map_fillWith (part : Tree) :
    ((draft.sketch.addAll (ahead.map leaf)).add Tree.hole).map id (Tree.fillWith part) =
      (draft.sketch.addAll (ahead.map leaf)).add part := by
  rw [Sketch.map_add, Sketch.map_fillWith_of_whole]
  · rfl
  · rw [Sketch.forest_addAll, Tree.allLeaves_append, before.leaves, allLeaves_map_leaf,
      ← List.map_append, ← before.front]
    exact Tree.whole_map_pair exchange.front_whole

theorem past_braced (all : draft.trivia = ahead)
    (next : draft.upcoming = Token.braced exchange.inside ++ exchange.behind) :
    exchange.Past (Expression.braced draft) (Expression.braced other) := by
  have next' : other.upcoming = Token.braced exchange.filler ++ exchange.behind := by
    have rest := before.otherRest
    rw [← trivia_append_upcoming, before.trivia, all, List.append_cancel_left_eq] at rest
    exact rest
  have goesOn (list : List Token) (included : list ⊆ exchange.inside ++ exchange.filler) :
      ∀ token ∈ list, token.kind.endsLine = false := fun token member =>
    exchange.goesOn token (List.mem_append_right _ (included member))
  have took := Expression.takesList_braced next exchange.inside_balanced
    (goesOn _ (List.subset_append_left _ _))
  have took' := Expression.takesList_braced next' exchange.filler_balanced
    (goesOn _ (List.subset_append_right _ _))
  have start : draft.nextStart = exchange.position := by
    rw [nextStart, before.offset, all, position, before.front, Token.totalLength_append]
  have start' : other.nextStart = exchange.position :=
    (congrArg Span.start before.nextSpan).trans start
  have sameSketch : other.sketch = draft.sketch := by rw [before.other_eq]
  refine ⟨[], (draft.sketch.addAll (ahead.map leaf)).add Tree.hole, ?_, ?_, ?_, ?_, ?_, ?_, ?_, ?_⟩
  · rw [took.rest, List.nil_append]
  · rw [took'.rest, took.rest]
  · rw [took.offset, start]
    rfl
  · rw [took'.offset, start']
    rfl
  · rw [took.sketch, before.map_fillWith, all, part,
      Token.listNode]
  · rw [took'.sketch, sameSketch, before.map_fillWith, before.trivia, all,
      otherPart, Token.listNode]
  · rw [Sketch.forest_add, Tree.allLeaves_append, Sketch.forest_addAll, Tree.allLeaves_append,
      before.leaves, allLeaves_map_leaf, ← List.map_append, ← before.front]
    rfl
  · rw [took.diagnostics, took'.diagnostics, before.other_eq]
    exact List.forall₂_same.mpr fun diagnostic member =>
      ⟨rfl, .before (before.reports diagnostic member)⟩

theorem lost_of_writesNode (writes : WritesNode .stock kind draft after)
    (passed : Passed exchange.position after) (notCall : kind ≠ .callExpr)
    (shallow : ∀ inner, kind.holds inner = true → inner = .macroArg)
    (notFirst : kind = .macroArg → ∃ first, draft.upcoming.head? = some first ∧
      draft.nextStart + first.length ≤ exchange.position) : exchange.Lost after :=
  hasAstray_of_writesNode writes before.standsBefore passed notCall shallow notFirst

theorem lost_recover (cause : Cause) (stop : Kind → Bool)
    (passed : Passed exchange.position (draft.recover cause stop)) :
    exchange.Lost (draft.recover cause stop) := by
  rw [recover_of_not_atLineEnd before.goesOn] at passed ⊢
  change exchange.Lost (draft.skip stop)
  have writes : WritesNode .stock .errorNode draft (draft.skip stop) :=
    writesNode_leave before.goesOn (writes_takeUntil _ _)
  exact before.lost_of_writesNode writes passed (by decide) (fun inner held => by contradiction)
    fun other => by contradiction

theorem lost_stray (passed : Passed exchange.position (Expression.primary.stray draft)) :
    exchange.Lost (Expression.primary.stray draft) :=
  before.lost_of_writesNode (Expression.writesNode_stray before.goesOn) passed (by decide)
    (fun inner held => by contradiction) fun other => by contradiction

theorem lost_braced {token : Token} {later : List Token}
    (split : ahead = draft.trivia ++ token :: later)
    (next : draft.upcoming = token :: (later ++ (Token.braced exchange.inside ++ exchange.behind)))
    (passed : Passed exchange.position (Expression.braced draft)) :
    exchange.Lost (Expression.braced draft) := by
  refine before.lost_of_writesNode (Expression.writesNode_braced before.goesOn) passed (by decide)
    (fun inner held => by contradiction) fun _ => ⟨token, by rw [next]; rfl, ?_⟩
  rw [nextStart, before.offset, position, before.front, split, Token.totalLength_append,
    Token.totalLength_append, Token.totalLength]
  omega

theorem lost_expressionCall (passed : Passed exchange.position (Expression.macroCall draft)) :
    exchange.Lost (Expression.macroCall draft) :=
  before.lost_of_writesNode (Expression.writesNode_macroCall before.goesOn) passed (by decide)
    (fun inner held => by simpa [Kind.holds] using held) fun other => by contradiction

theorem lost_statementCall (passed : Passed exchange.position (Statement.macroCall draft)) :
    exchange.Lost (Statement.macroCall draft) :=
  before.lost_of_writesNode (Statement.writesNode_macroCall before.goesOn) passed (by decide)
    (fun inner held => by simpa [Kind.holds] using held) fun other => by contradiction

theorem lost_replacement (opened : draft.sketch.tags ≠ [])
    (passed : Passed exchange.position ((Arguments.replacement draft).leave .directive)) :
    exchange.Lost ((Arguments.replacement draft).leave .directive) := by
  have entered : (draft.enter .plain).atLineEnd = false := by
    rw [atLineEnd_enter, before.goesOn]
  have taken : Arguments.replacement draft =
      ((draft.enter .plain).bump.takeUntil fun _ => false).leave .macroArg := by
    rw [Arguments.replacement, if_neg (Bool.eq_false_iff.mp before.goesOn), node, takeUntil,
      takeUntil, takeTokens_of_accepted entered rfl]
  have writes : WritesNode .stock .macroArg draft (Arguments.replacement draft) := by
    rw [taken]
    exact writesNode_leave before.goesOn (writes_takeUntil _ _)
  refine hasAstray_leave_of_writesNode writes before.standsBefore ?_ opened (by decide)
  rwa [Passed, Draft.leave, Sketch.totalLength_forest_leave] at passed

end Before

theorem Past.sees (past : exchange.Past draft other) : SeesAlike draft other := by
  obtain ⟨taken, frame, behind⟩ := past
  refine ⟨behind.role, ?_, fun _ => ?_, ?_, ?_⟩
  · rw [tokenAt?_of_upcoming behind.upcoming]
  · rw [tokenAt?_of_upcoming behind.upcoming]
  · rw [Expression.atMacroCall, Expression.atMacroCall, behind.upcoming]
  · rw [behind.rest]

/-- In front of the list a rule that takes single tokens keeps step, or loses the first
draft; behind the list it is read alike. -/
theorem follows_of_cases {rule : Draft → Draft} (abreast : exchange.Abreast draft other)
    (inFront : exchange.Ahead draft other →
      Follows (Passed exchange.position) exchange.Ahead (rule draft) (rule other))
    (lost : ∀ taken ahead, Before exchange taken ahead draft other →
      Passed exchange.position (rule draft) → exchange.Lost (rule draft))
    (behind : exchange.Past draft other → exchange.Past (rule draft) (rule other)) :
    Follows exchange.Lost exchange.Abreast (rule draft) (rule other) := by
  rcases abreast with front | past
  · obtain ⟨taken, ahead, before⟩ := front
    rcases inFront ⟨taken, ahead, before⟩ with passed | front
    · exact .inl (lost taken ahead before passed)
    · exact .inr (.inl front)
  · exact .inr (.inr (behind past))

theorem follows_braced (abreast : exchange.Abreast draft other) :
    Follows exchange.Lost exchange.Abreast (Expression.braced draft) (Expression.braced other) := by
  have free := freeLockstep_ahead exchange
  rcases abreast with ⟨taken, ahead, before⟩ | past
  · rcases upcoming_braced_cases before.rest with ⟨all, next⟩ | ⟨token, later, split, next⟩
    · exact .inr (.inr (before.past_braced all next))
    · exact (free.follows_braced ⟨taken, ahead, before⟩ before.goesOn).imp
        (before.lost_braced split next) .inl
  · exact .inr (.inr (Expression.respects_braced (congruence_past exchange) past))

theorem indirect_of_judged (judged : exchange.JudgedAlike)
    (abreast : exchange.Abreast draft other) (word : draft.peek = .mnemonic) :
    Operand.opensIndirect draft.bump = Operand.opensIndirect other.bump := by
  rcases abreast with ⟨taken, ahead, before⟩ | ⟨taken, frame, behind⟩
  · rcases upcoming_braced_cases before.rest with ⟨-, next⟩ | ⟨token, later, split, next⟩
    · rw [peek_of_upcoming next] at word
      contradiction
    · have passed := before.bump split next
      have isMnemonic : token.kind = .mnemonic := (peek_of_upcoming next).symm.trans word
      have same := judged (taken ++ draft.trivia) token later
        (by rw [before.front, split]; simp) isMnemonic
      have here : draft.bump.upcoming = Draft.upcoming
          { rest := later ++ (Token.braced exchange.inside ++ exchange.behind) } := by
        rw [Draft.upcoming, passed.rest]
        rfl
      have there : other.bump.upcoming = Draft.upcoming
          { rest := later ++ (Token.braced exchange.filler ++ exchange.behind) } := by
        rw [Draft.upcoming, passed.otherRest]
        rfl
      rw [Operand.opensIndirect_of_upcoming here, same, Operand.opensIndirect_of_upcoming there]
  · exact Operand.opensIndirect_of_upcoming (upcoming_bump_of_upcoming behind.upcoming.symm)

/-- A line and the one with the exchanged list are read in lockstep. -/
theorem ruleLockstep (exchange : Exchange) (judged : exchange.JudgedAlike) :
    RuleLockstep exchange.Lost exchange.Abreast := by
  have free := freeLockstep_ahead exchange
  have alike := congruence_past exchange
  exact
    { persistent := persistent_hasAstray exchange.position
      sees := fun abreast => abreast.elim free.sees Past.sees
      bump := fun abreast goesOn notBrace =>
        abreast.imp (fun front => free.bump front goesOn notBrace) alike.bump
      enter := fun role abreast goesOn =>
        abreast.imp (fun front => free.enter role front goesOn) (alike.enter role)
      wrap := fun role abreast => abreast.imp (free.wrap role) (alike.wrap role)
      leave := fun kind abreast => abreast.imp (free.leave kind)
        fun ⟨_, _, behind⟩ => ⟨_, _, behind.leave kind⟩
      error := fun cause abreast => abreast.imp (free.error cause) (alike.error cause)
      recover := fun cause stop abreast =>
        follows_of_cases abreast (free.follows_recover cause stop)
          (fun _ _ before => before.lost_recover cause stop) (alike.recover cause stop)
      stray := fun abreast goesOn =>
        follows_of_cases abreast (free.follows_stray · goesOn)
          (fun _ _ before => before.lost_stray) (alike.stray · goesOn)
      braced := fun abreast _ _ => follows_braced abreast
      call := fun abreast calls =>
        follows_of_cases abreast (free.follows_expressionCall · calls)
          (fun _ _ before => before.lost_expressionCall)
          fun past => Expression.respects_macroCall alike past
      replacement := fun abreast opened =>
        @follows_of_cases _ _ _ (fun draft => (Arguments.replacement draft).leave .directive)
          abreast
          (fun front => free.follows_leave _ (free.follows_replacement front))
          (fun _ _ before => before.lost_replacement opened)
          fun past => alike.leave (by decide) (Arguments.respects_replacement alike past)
      indirect := fun abreast word => indirect_of_judged judged abreast word }

theorem follows_statementCall (abreast : exchange.Abreast draft other)
    (word : draft.peek = .ident) :
    Follows exchange.Lost exchange.Abreast (Statement.macroCall draft)
      (Statement.macroCall other) := by
  have free := freeLockstep_ahead exchange
  have enterAtEnd : ∀ ⦃draft other : Draft⦄, exchange.Ahead draft other →
      exchange.Ahead (draft.enter .plain) (other.enter .plain) :=
    fun _ _ ⟨_, _, before⟩ => before.enter .plain
  exact follows_of_cases abreast (free.follows_statementCall enterAtEnd · word)
    (fun _ _ before => before.lost_statementCall)
    fun past => Statement.respects_macroCall (congruence_past exchange) past

end Exchange

/-- The same effect of two lines; where they open a block, they do so at words that
correspond. -/
inductive BlockEdge.Across (across : Nat → Nat → Prop) :
    Option BlockEdge → Option BlockEdge → Prop
  | none : Across across none none
  | opens (block : BlockKind) {keyword keyword' : Span} :
      across keyword.start keyword'.start →
        Across across (some (.opens block keyword)) (some (.opens block keyword'))
  | closes : Across across (some .closes) (some .closes)

namespace Exchange

open Draft

variable {exchange : Exchange} {draft other : Draft}

/-- Two lines that have been read differ in the list alone. -/
structure ReadAlike (exchange : Exchange) (line other : Line) : Prop where
  tree : ∃ frame : Tree,
    frame.leaves =
        exchange.front.map Token.pair ++ (.eof, 0) :: exchange.behind.map Token.pair ∧
      line.tree = Tree.fillWith exchange.part frame ∧
        other.tree = Tree.fillWith exchange.otherPart frame
  diagnostics :
    Forall₂ (Diagnostic.Across exchange.position exchange.length exchange.otherLength)
      line.diagnostics other.diagnostics
  edges : BlockEdge.Across exchange.Across line.edge? other.edge?

theorem Abreast.nextSpan (abreast : exchange.Abreast draft other) :
    exchange.Across draft.nextSpan.start other.nextSpan.start := by
  rcases abreast with ⟨taken, ahead, before⟩ | ⟨taken, frame, behind⟩
  · rw [before.nextSpan]
    exact .before before.standsBefore.nextStart_le
  · exact behind.nextStart

theorem edges_of_agree {edge? edge?' : Option BlockEdge}
    (agree : BlockEdge.Agree exchange.Abreast edge? edge?') :
    BlockEdge.Across exchange.Across edge? edge?' := by
  cases agree with
  | none => exact .none
  | opens block related _ => exact .opens block related.nextSpan
  | closes => exact .closes

theorem start (exchange : Exchange) :
    exchange.Abreast { rest := exchange.line } { rest := exchange.other } :=
  .inl ⟨[], exchange.front, rfl, rfl, rfl, rfl, rfl, by simp⟩

/-- At the line's end the list has been passed. -/
theorem Abreast.past (abreast : exchange.Abreast draft other) (ended : draft.atLineEnd = true) :
    exchange.Past draft other := by
  rcases abreast with ⟨taken, ahead, before⟩ | past
  · rw [before.goesOn] at ended
    contradiction
  · exact past

section

variable (judged : exchange.JudgedAlike) (dialect : Dialect) (block? : Option BlockKind)
  (isLine : Token.IsLine exchange.line)
  (scanned : ∀ token ∈ exchange.line, Scan.IsScanned token)
include judged isLine scanned

/-- Two lines that differ in a list are read alike, or the list is no argument of a
call. -/
theorem read_cases :
    Tree.HasAstray exchange.position [(Line.read dialect block? exchange.line).tree] ∨
      exchange.ReadAlike (Line.read dialect block? exchange.line)
        (Line.read dialect block? exchange.other) := by
  have lockstep := ruleLockstep exchange judged
  have labelled := Line.lockstep_labels lockstep exchange.start
  have noTags := Line.tags_stated dialect block? scanned isLine
  rcases Line.paced_stated lockstep dialect block? exchange.start
      fun calls => follows_statementCall labelled calls.word with lost | ⟨stated, edges⟩
  · left
    have ended : exchange.Lost (Line.finish (Line.stated dialect block? exchange.line)) :=
      (Line.respects_finish lockstep.persistent.congruence ⟨rfl, lost⟩).2
    rw [Line.read_tree, Line.trees_stated dialect block? scanned isLine]
    exact @Tree.HasAstray.node _ [] _ ended .line
  · right
    have past := stated.past (Line.atLineEnd_toLineEnd _)
    obtain ⟨taken, frame, behind⟩ := Line.respects_finish (congruence_past exchange) past
    have allTaken : taken = exchange.behind := by
      rw [behind.behind, (Line.finished_stated dialect block? scanned isLine).rest,
        List.append_nil]
    have closed : frame.forest = frame.trees := by
      rw [behind.sketch, Sketch.tags_map, List.map_id] at noTags
      exact Sketch.forest_of_opened_nil (List.map_eq_nil_iff.mp noTags)
    refine ⟨⟨.node .line frame.trees, ?_, ?_, ?_⟩, ?_, edges_of_agree edges⟩
    · rw [Tree.leaves, ← closed, behind.leaves, allTaken]
    · rw [Line.read_tree, behind.sketch, Sketch.trees_map, Tree.fillWith_node]
    · rw [Line.read_tree, behind.otherSketch, Sketch.trees_map, Tree.fillWith_node]
    · rw [Line.read_diagnostics, Line.read_diagnostics]
      exact List.forall₂_reverse_iff.mpr behind.reports

end

end Exchange
end Asm6502
