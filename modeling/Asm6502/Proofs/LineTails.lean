import Asm6502.Proofs.LineWriting
import Asm6502.Proofs.LockstepGrammar

/-!
# The tail of a line

Trivia are taken together with the significant token behind them, or before a node is
opened there.  So what stands behind the last significant token of a line is left to the
end of the line.  The one exception is a macro call whose arguments end with a comma: it
opens an argument where the line ends, which takes the trivia into the call and then
disappears.
-/

namespace Asm6502

open Draft Written

/-- Trivia and line ends. -/
def Token.Trailing (tokens : List Token) : Prop :=
  ∀ token ∈ tokens, token.isTrivia = true ∨ token.kind = .eol

/-- A draft beside itself, as long as the given tokens have not been taken. -/
def Draft.KeepsTail (tail : List Token) (draft other : Draft) : Prop :=
  draft = other ∧ tail <:+ draft.rest

variable {tail : List Token} {draft : Draft}

namespace Draft

theorem SeesAlike.refl (draft : Draft) : SeesAlike draft draft :=
  ⟨rfl, rfl, fun _ => rfl, rfl, rfl⟩

theorem suffix_behind {token : Token} {behind : List Token} (trailing : Token.Trailing tail)
    (suffix : tail <:+ draft.rest) (ahead : draft.upcoming = token :: behind)
    (notEol : token.kind ≠ .eol) : tail <:+ behind := by
  have notTrivia := not_isTrivia_of_upcoming ahead
  have outside : token ∉ tail := fun inside =>
    (trailing token inside).elim (by simp [notTrivia]) notEol
  have rest : token :: behind <:+ draft.rest := ⟨draft.trivia, by
    rw [← ahead, trivia_append_upcoming]⟩
  rcases List.suffix_or_suffix_of_suffix suffix rest with short | long
  · rcases List.suffix_cons_iff.mp short with same | short
    · exact absurd (same ▸ List.mem_cons_self) outside
    · exact short
  · exact absurd (long.subset List.mem_cons_self) outside

theorem mem_trivia_of_ended {line : List Token} {token : Token} (suffix : draft.rest <:+ line)
    (scanned : ∀ token ∈ line, Scan.IsScanned token) (unbroken : Token.Unbroken line.dropLast)
    (ended : draft.atLineEnd = true) (member : token ∈ draft.rest)
    (isTrivia : token.isTrivia = true) : token ∈ draft.trivia := by
  rw [← trivia_append_upcoming, List.mem_append] at member
  refine member.resolve_right fun late => ?_
  rcases Line.upcoming_of_ended (fun token member => scanned token (suffix.subset member))
      (Line.unbroken_dropLast_of_suffix suffix unbroken) ended with
    nothing | ⟨ending, ahead, -, -⟩
  · simp [nothing] at late
  · obtain rfl : token = ending := by simpa [ahead] using late
    rw [not_isTrivia_of_upcoming ahead] at isTrivia
    contradiction

theorem KeepsTail.bump (trailing : Token.Trailing tail) {other : Draft}
    (keeps : KeepsTail tail draft other) (goesOn : draft.atLineEnd = false) :
    KeepsTail tail draft.bump other.bump := by
  obtain ⟨rfl, suffix⟩ := keeps
  obtain ⟨token, behind, ahead, notEol⟩ := upcoming_of_not_atLineEnd goesOn
  refine ⟨rfl, ?_⟩
  rw [bump_of_upcoming ahead]
  exact suffix_behind trailing suffix ahead notEol

theorem KeepsTail.enter (trailing : Token.Trailing tail) {other : Draft} (role : Role)
    (keeps : KeepsTail tail draft other) (goesOn : draft.atLineEnd = false) :
    KeepsTail tail (draft.enter role) (other.enter role) := by
  obtain ⟨rfl, suffix⟩ := keeps
  obtain ⟨token, behind, ahead, notEol⟩ := upcoming_of_not_atLineEnd goesOn
  refine ⟨rfl, ?_⟩
  change tail <:+ draft.upcoming
  rw [ahead]
  exact (suffix_behind trailing suffix ahead notEol).trans (List.suffix_cons token behind)

/-- As long as nodes are only opened before the line's end, the tail is not taken. -/
theorem freeLockstep_keepsTail (trailing : Token.Trailing tail) :
    FreeLockstep (fun _ => False) (KeepsTail tail) where
  persistent :=
    { takeTrivia := id
      bump := id
      enter := fun _ => id
      wrap := fun _ => id
      leave := fun _ => id
      errorAt := fun _ _ => id }
  sees := by
    rintro draft _ ⟨rfl, -⟩
    exact .refl draft
  bump keeps goesOn _ := keeps.bump trailing goesOn
  enter role keeps goesOn := keeps.enter trailing role goesOn
  wrap := by
    rintro draft _ role ⟨rfl, suffix⟩
    exact ⟨rfl, suffix⟩
  leave := by
    rintro draft _ kind ⟨rfl, suffix⟩
    exact ⟨rfl, suffix⟩
  error := by
    rintro draft _ cause ⟨rfl, suffix⟩
    exact ⟨rfl, suffix⟩
  take keeps goesOn := .inr (keeps.bump trailing goesOn)
  flag := by
    rintro draft _ later _ cause ⟨rfl, -⟩ ⟨rfl, suffix⟩
    exact ⟨rfl, suffix⟩

theorem ruleLockstep_keepsTail (trailing : Token.Trailing tail) :
    RuleLockstep (fun _ => False) (KeepsTail tail) :=
  (freeLockstep_keepsTail trailing).ruleLockstep fun draft other keeps _ => by
    rw [keeps.1]

end Draft

namespace Statement

variable {dialect : Dialect} {base : Draft}

/-- Since `base` trees have been written that a macro call can hold, and the tail has not
been taken. -/
structure Underway (dialect : Dialect) (tail : List Token) (base draft : Draft) : Prop where
  writes : Writes dialect Kind.macroCall.holds base draft
  suffix : tail <:+ draft.rest

/-- Just now a comma has been taken. -/
def BehindComma (dialect : Dialect) (tail : List Token) (base draft : Draft) : Prop :=
  ∃ front, Underway dialect tail base front ∧ front.peek = .comma ∧ draft = front.bump

theorem Underway.bump (trailing : Token.Trailing tail)
    (underway : Underway dialect tail base draft) (goesOn : draft.atLineEnd = false) :
    Underway dialect tail base draft.bump where
  writes := underway.writes.trans (writes_bump draft)
  suffix := (KeepsTail.bump trailing ⟨rfl, underway.suffix⟩ goesOn).2

theorem Underway.rawArgument (trailing : Token.Trailing tail)
    (underway : Underway dialect tail base draft) (goesOn : draft.atLineEnd = false) :
    Underway dialect tail base (rawArgument draft) where
  writes := underway.writes.trans (writes_node .macroArg rfl (fun _ => trivial)
    fun argument _ => writes_takeTokens _ _ argument)
  suffix := by
    have free := freeLockstep_keepsTail trailing
    have entered := KeepsTail.enter trailing .plain ⟨rfl, underway.suffix⟩ goesOn
    have read := free.follows_takeTokens Statement.rawArgument.step 0 entered
    exact (read.resolve_left id).2

/-- An argument is opened and completed with nothing in it.  It disappears, and the trivia
stay where it was opened. -/
def emptyArgument (draft : Draft) : Draft :=
  (draft.enter .plain).leave .macroArg

theorem wrote_emptyArgument (draft : Draft) :
    Wrote (draft.trivia.map .leaf) [] draft (emptyArgument draft) :=
  wrote_leave_nil (builds_refl _) .macroArg

theorem rawArgument_of_atLineEnd (ended : draft.atLineEnd = true) :
    rawArgument draft = emptyArgument draft := by
  have stays : ((draft.enter .plain).takeTokens rawArgument.step 0).2 = draft.enter .plain := by
    unfold takeTokens
    cases (draft.enter .plain).rest with
    | nil => rfl
    | cons token rest => rw [takeTokens.go, if_pos ((atLineEnd_enter .plain draft).trans ended)]
  rw [rawArgument, Draft.node, stays]
  rfl

theorem argument_cases (trailing : Token.Trailing tail)
    (underway : Underway dialect tail base draft) :
    let read := if draft.peek = .comma then draft else rawArgument draft
    draft.atLineEnd = true ∧ read = emptyArgument draft ∨ Underway dialect tail base read := by
  dsimp only
  split
  · exact .inr underway
  · cases ended : draft.atLineEnd with
    | true => exact .inl ⟨rfl, rawArgument_of_atLineEnd ended⟩
    | false => exact .inr (underway.rawArgument trailing ended)

/-- The arguments of a macro call leave the tail alone, unless the line ends behind a
comma. -/
theorem arguments_cases (trailing : Token.Trailing tail) (tokens : List Token)
    (underway : Underway dialect tail base draft)
    (ahead : draft.atLineEnd = true → BehindComma dialect tail base draft) :
    let read := separated.go
      (fun draft => if draft.peek = .comma then draft else rawArgument draft) tokens draft
    tail <:+ read.rest ∨
      ∃ last, BehindComma dialect tail base last ∧ last.atLineEnd = true ∧
        read = emptyArgument last := by
  induction tokens generalizing draft with
  | nil =>
      rcases argument_cases trailing underway with ⟨ended, same⟩ | read
      · exact .inr ⟨draft, ahead ended, ended, same⟩
      · exact .inl read.suffix
  | cons token tokens ih =>
      simp only [separated.go]
      rcases argument_cases trailing underway with ⟨ended, same⟩ | read
      · have notComma : (emptyArgument draft).peek ≠ .comma := by
          intro comma
          have inside := not_atLineEnd_of_peek comma rfl
          rw [← atLineEnd_enter .plain draft] at ended
          exact Bool.eq_false_iff.mp inside ended
        rw [same, if_neg notComma]
        exact .inr ⟨draft, ahead ended, ended, rfl⟩
      · generalize (if draft.peek = .comma then draft else rawArgument draft) = later at read ⊢
        split
        · next comma =>
            exact ih (read.bump trailing (not_atLineEnd_of_peek comma rfl))
              fun _ => ⟨_, read, comma, rfl⟩
        · exact .inl read.suffix

/-- A macro call whose last argument is missing holds the trivia behind its last comma. -/
structure TakesTrivia (tail : List Token) (before after : Draft) : Prop where
  wrote : ∃ (children : List Written) (comma : Token) (gap : List Token)
      (reports : List Diagnostic),
    Wrote (before.trivia.map .leaf ++
        [.node .macroCall (children ++ .leaf comma :: gap.map .leaf)]) reports before after ∧
      comma.kind = .comma ∧ (∀ token ∈ gap, token.isTrivia = true) ∧
      ∀ token ∈ tail, token.isTrivia = true → token ∈ gap
  ended : after.atLineEnd = true

section

variable (trailing : Token.Trailing tail) (scanned : ∀ token ∈ draft.rest, Scan.IsScanned token)
  (unbroken : Token.Unbroken draft.rest.dropLast)
include trailing scanned unbroken

theorem takesTrivia_of_behindComma {last : Draft}
    (behind : BehindComma dialect tail (draft.enter .plain) last)
    (ended : last.atLineEnd = true) :
    TakesTrivia tail draft ((emptyArgument last).leave .macroCall) := by
  obtain ⟨front, underway, comma, rfl⟩ := behind
  have goesOn := not_atLineEnd_of_peek comma rfl
  obtain ⟨token, rest, ahead, -⟩ := upcoming_of_not_atLineEnd goesOn
  obtain ⟨trees, reports, wrote, -⟩ := underway.writes
  have passed := wrote.append (wrote_bump ahead)
  have whole := passed.append (wrote_emptyArgument front.bump)
  have suffix : front.bump.rest <:+ draft.rest := by
    have later : front.bump.rest <:+ draft.upcoming := ⟨_, passed.rest.symm⟩
    exact later.trans (List.dropWhile_suffix _)
  refine ⟨⟨trees ++ front.trivia.map .leaf, token, front.bump.trivia, reports,
    ?_, ?_, ?_, ?_⟩, ?_⟩
  · have node := wrote_leave whole (by simp) .macroCall
    simpa using node
  · rw [← peek_of_upcoming ahead, comma]
  · exact fun token member => isTrivia_of_mem_trivia member
  · intro other member isTrivia
    exact mem_trivia_of_ended suffix scanned unbroken ended
      ((underway.bump trailing goesOn).suffix.subset member) isTrivia
  · exact (atLineEnd_enter .plain front.bump).trans ended

theorem macroCall_cases (suffix : tail <:+ draft.rest) (word : draft.peek = .ident) :
    tail <:+ (macroCall draft).rest ∨ TakesTrivia tail draft (macroCall draft) := by
  have goesOn := not_atLineEnd_of_peek word rfl
  have entered : (draft.enter .plain).atLineEnd = false := by rw [atLineEnd_enter, goesOn]
  have start : Underway .stock tail (draft.enter .plain) (draft.enter .plain) :=
    ⟨.refl _, (KeepsTail.enter trailing .plain ⟨rfl, suffix⟩ goesOn).2⟩
  have named := start.bump trailing entered
  cases ended : (draft.enter .plain).bump.atLineEnd with
  | true =>
      have none : macroCall draft = (draft.enter .plain).bump.leave .macroCall := by
        simp [macroCall, Draft.node, ended]
      rw [none]
      exact .inl named.suffix
  | false =>
      have some : macroCall draft = ((draft.enter .plain).bump.separated fun draft =>
          if draft.peek = .comma then draft else rawArgument draft).leave .macroCall := by
        simp [macroCall, Draft.node, ended]
      rw [some]
      rcases arguments_cases trailing (draft.enter .plain).bump.rest named
          (by simp [ended]) with kept | ⟨last, behind, lastEnded, same⟩
      · exact .inl kept
      · right
        rw [separated, same]
        exact takesTrivia_of_behindComma trailing scanned unbroken behind lastEnded

end
end Statement
namespace Line

/-- The tail of a line is left to its end, or it stands in a macro call behind a comma. -/
theorem stated_cases (dialect : Dialect) (block? : Option BlockKind) {tokens : List Token}
    (isLine : Token.IsLine tokens) (scanned : ∀ token ∈ tokens, Scan.IsScanned token)
    (trailing : Token.Trailing tail) (suffix : tail <:+ tokens) :
    tail <:+ (stated dialect block? tokens).rest ∨
      ∃ (before children : List Written) (comma : Token) (gap : List Token)
          (reports : List Diagnostic),
        Wrote (before ++ [.node .macroCall (children ++ .leaf comma :: gap.map .leaf)]) reports
            { rest := tokens } (stated dialect block? tokens) ∧
          comma.kind = .comma ∧ (∀ token ∈ gap, token.isTrivia = true) ∧
          ∀ token ∈ tail, token.isTrivia = true → token ∈ gap := by
  have lockstep := ruleLockstep_keepsTail trailing
  have start : KeepsTail tail { rest := tokens } { rest := tokens } := ⟨rfl, suffix⟩
  have labelled := lockstep_labels lockstep start
  have moves := moves_labels tokens.length true { rest := tokens }
  have kept (call : Statement.CallsMacro dialect block?
      (labels tokens.length true { rest := tokens }) →
        tail <:+ (Statement.macroCall (labels tokens.length true { rest := tokens })).rest) :
      tail <:+ (stated dialect block? tokens).rest := by
    have paced := paced_stated lockstep dialect block? start fun calls => .inr ⟨rfl, call calls⟩
    exact (paced.resolve_left id).1.2
  by_cases calls : Statement.CallsMacro dialect block?
      (labels tokens.length true { rest := tokens })
  · rcases Statement.macroCall_cases trailing
        (fun token member => scanned token (moves.rest_suffix.subset member))
        (unbroken_dropLast_of_suffix moves.rest_suffix isLine.unbroken) labelled.2
        calls.word with
      suffix | ⟨⟨children, comma, gap, reports, wrote, isComma, gapTrivia, inGap⟩, ended⟩
    · exact .inl (kept fun _ => suffix)
    · right
      have same : stated dialect block? tokens =
          Statement.macroCall (labels tokens.length true { rest := tokens }) := by
        rw [stated, calls.read_eq, toLineEnd, if_pos ended]
      obtain ⟨trees, others, labels, -⟩ : Writes dialect Kind.standsAside { rest := tokens }
          (labels tokens.length true { rest := tokens }) := writes_labels _ _ _
      have whole := labels.append wrote
      rw [← List.append_assoc, ← same] at whole
      exact ⟨_, children, comma, gap, _, whole, isComma, gapTrivia, inGap⟩
  · exact .inl (kept fun calls' => absurd calls' calls)

/-- A leaf stands among the children of a line, or in a macro call among them, behind a
comma. -/
def Holds (leaf : Tree) (children : List Tree) : Prop :=
  leaf ∈ children ∨
    ∃ arguments comma gap, Tree.node .macroCall (arguments ++ comma :: gap) ∈ children ∧
      comma.kind = .comma ∧ (∀ tree ∈ gap, tree.kind.isTrivia = true) ∧ leaf ∈ gap

theorem holds_read (dialect : Dialect) (block? : Option BlockKind) {tokens : List Token}
    (isLine : Token.IsLine tokens) (scanned : ∀ token ∈ tokens, Scan.IsScanned token)
    (trailing : Token.Trailing tail) (suffix : tail <:+ tokens) {token : Token}
    (member : token ∈ tail) (isTrivia : token.isTrivia = true) :
    ∃ children, (read dialect block? tokens).tree = .node .line children ∧
      Holds (leaf token) children := by
  have finished := finished_stated dialect block? scanned isLine
  refine ⟨_, read_tree dialect block? tokens, ?_⟩
  rw [trees_stated dialect block? scanned isLine]
  obtain ⟨ends, -, forest⟩ := finished.forest
  rcases stated_cases dialect block? isLine scanned trailing suffix with
    left | ⟨before, children, comma, gap, reports, wrote, isComma, gapTrivia, inGap⟩
  · left
    have inTrivia : token ∈ (stated dialect block? tokens).trivia :=
      mem_trivia_of_ended (moves_stated dialect block? tokens).rest_suffix scanned
        isLine.unbroken (atLineEnd_toLineEnd _) (left.subset member) isTrivia
    rw [forest, List.mem_append]
    left
    simp only [takeTrivia, Sketch.forest_addAll, List.mem_append]
    exact .inr (List.mem_map_of_mem inTrivia)
  · right
    refine ⟨children.map Written.tree, leaf comma, gap.map leaf, ?_, isComma, ?_,
      List.mem_map_of_mem (inGap token member isTrivia)⟩
    · rw [forest, List.mem_append]
      left
      simp only [takeTrivia, Sketch.forest_addAll, List.mem_append]
      left
      rw [wrote.sketch, Sketch.forest_addAll, List.mem_append]
      right
      refine List.mem_map.mpr ⟨.node .macroCall (children ++ .leaf comma :: gap.map .leaf),
        by simp, ?_⟩
      rw [tree_node, List.map_append, List.map_cons, allTrees_leaves]
      rfl
    · intro tree treeIn
      obtain ⟨trivial, trivialIn, rfl⟩ := List.mem_map.mp treeIn
      exact gapTrivia trivial trivialIn

end Line
end Asm6502
