import Asm6502.Proofs.ExpressionMoves
import Asm6502.Proofs.WritingRules

/-!
# What the expression machine writes

While the machine runs, each node it has opened waits for an operand in which
operators bind tighter than its own.  An operand that has been read is completed
by a node around it only when nothing binds tighter that follows.  Every step
keeps this, whatever is missing or out of place, and therefore every operation in
an expression respects the powers of the operators.
-/

namespace Asm6502

/-- Operands without operators of their own. -/
def Kind.isAtom : Kind → Bool
  | .binaryExpr | .unaryExpr => false
  | kind => kind.isOperand

theorem Kind.isOperand_of_isAtom {kind : Kind} (atomic : kind.isAtom = true) :
    kind.isOperand = true := by
  revert atomic
  cases kind <;> decide

theorem Kind.not_operation_of_isAtom {kind : Kind} (atomic : kind.isAtom = true) :
    kind ≠ .binaryExpr ∧ kind ≠ .unaryExpr := by
  revert atomic
  cases kind <;> decide

namespace Expression

open Draft Written

variable {dialect : Dialect} {base draft : Draft}

/-- A node that can be an operand. -/
structure IsOperand (dialect : Dialect) (operand : Written) : Prop where
  formed : operand.Formed dialect
  isNode : operand.isToken = false
  kind : operand.kind.isOperand = true

/-- An operand without operators of its own has been read. -/
def WritesAtom (dialect : Dialect) (before after : Draft) : Prop :=
  ∃ operand reports, Wrote (before.trivia.map .leaf ++ [operand]) reports before after ∧
    IsOperand dialect operand ∧ operand.kind.isAtom = true ∧
      ∀ diagnostic ∈ reports, diagnostic.IsOfLine

theorem writesAtom_of_writesNode {kind : Kind} {after : Draft} (atomic : kind.isAtom = true)
    (unshaped : ∀ trees, Shape dialect kind trees)
    (writes : WritesNode dialect kind draft after) : WritesAtom dialect draft after := by
  obtain ⟨trees, reports, wrote, -, sound⟩ := writes
  refine ⟨_, _, wrote, ⟨?_, rfl, ?_⟩, atomic, sound.ofLine⟩
  · exact .node sound.among (unshaped trees) sound.formed
  · exact Kind.isOperand_of_isAtom atomic

theorem writesAtom_leave {role : Role} {kind : Kind} (atomic : kind.isAtom = true)
    (unshaped : ∀ trees, Shape dialect kind trees)
    (goesOn : draft.atLineEnd = false) {inner : Draft}
    (inside : Writes dialect kind.holds (draft.enter role).bump inner) :
    WritesAtom dialect draft (inner.leave kind) :=
  writesAtom_of_writesNode atomic unshaped (writesNode_leave goesOn inside)

/-- Tokens that are no errors have been written, and no nodes. -/
def WritesTokens (dialect : Dialect) (kinds : Kind → Bool) (before after : Draft) : Prop :=
  ∃ trees reports, Wrote trees reports before after ∧ Sound dialect kinds trees reports ∧
    Sparse 0 trees

section

variable {kinds : Kind → Bool} {first second third : Draft}

theorem WritesTokens.refl (draft : Draft) : WritesTokens dialect kinds draft draft :=
  ⟨[], [], builds_refl draft, sound_nil, sparse_nil 0⟩

theorem WritesTokens.trans (writes : WritesTokens dialect kinds first second)
    (next : WritesTokens dialect kinds second third) :
    WritesTokens dialect kinds first third := by
  obtain ⟨trees, reports, wrote, sound, sparse⟩ := writes
  obtain ⟨more, others, wroteMore, soundMore, sparseMore⟩ := next
  exact ⟨_, _, wrote.append wroteMore, sound.append soundMore, sparse.append sparseMore⟩

theorem sparse_bump {token : Token} {behind : List Token}
    (ahead : draft.upcoming = token :: behind) (proper : draft.peek ≠ .errorToken) :
    Sparse 0 (draft.trivia.map .leaf ++ [.leaf token]) := by
  rw [peek_of_upcoming ahead] at proper
  exact (sparse_gap fun _ => isTrivia_of_mem_trivia).append (sparse_leaf proper)

theorem writesTokens_bump (proper : draft.peek ≠ .errorToken) :
    WritesTokens dialect kinds draft draft.bump := by
  cases ahead : draft.upcoming with
  | nil =>
      have stays : draft.bump = draft := by simp [bump, ahead]
      rw [stays]
      exact .refl draft
  | cons token behind =>
      exact ⟨_, _, wrote_bump ahead, (sound_leaves _).append (sound_leaf token),
        sparse_bump ahead proper⟩

theorem writesTokens_error (cause : Cause) (ofLine : cause.IsOfLine) (draft : Draft) :
    WritesTokens dialect kinds draft (draft.error cause) :=
  ⟨_, _, wrote_error cause draft,
    ⟨by simp, by simp, by simpa using ⟨cause, ofLine, rfl⟩⟩, sparse_nil 0⟩

theorem writesTokens_expect {kind : Kind} (proper : kind ≠ .errorToken) (cause : Cause)
    (ofLine : cause.IsOfLine) (draft : Draft) :
    WritesTokens dialect kinds draft (draft.expect kind cause) := by
  unfold expect
  split
  · next stands => exact writesTokens_bump (stands ▸ proper)
  · exact writesTokens_error cause ofLine draft

/-- An operand in which nothing but tokens stands. -/
theorem writesAtom_tokens {role : Role} {kind : Kind} (atomic : kind.isAtom = true)
    (shaped : ∀ trees, Sparse 0 trees → Shape dialect kind trees)
    (goesOn : draft.atLineEnd = false) (proper : draft.peek ≠ .errorToken) {inner : Draft}
    (inside : WritesTokens dialect kind.holds (draft.enter role).bump inner) :
    WritesAtom dialect draft (inner.leave kind) := by
  obtain ⟨token, behind, ahead, -⟩ := upcoming_of_not_atLineEnd goesOn
  rw [peek_of_upcoming ahead] at proper
  rw [← upcoming_enter role] at ahead
  obtain ⟨trees, reports, wrote, sound, sparse⟩ := inside
  have first : Sound dialect kind.holds
      ((draft.enter role).trivia.map .leaf ++ [.leaf token]) [] :=
    (sound_leaves _).append (sound_leaf token)
  have entered : Sparse 0 ((draft.enter role).trivia.map .leaf ++ [.leaf token]) :=
    sparse_bump ahead (by rwa [peek_of_upcoming ahead])
  have whole := first.append sound
  refine ⟨_, _, wrote_leave ((wrote_bump ahead).append wrote) (by simp) kind, ⟨?_, rfl, ?_⟩,
    atomic, whole.ofLine⟩
  · exact .node whole.among (shaped _ (entered.append sparse)) whole.formed
  · exact Kind.isOperand_of_isAtom atomic

end

theorem writesAtom_single {kind : Kind} (atomic : kind.isAtom = true)
    (shaped : ∀ trees, Sparse 0 trees → Shape dialect kind trees)
    (goesOn : draft.atLineEnd = false) (proper : draft.peek ≠ .errorToken) :
    WritesAtom dialect draft (single kind draft) :=
  writesAtom_tokens atomic shaped goesOn proper (.refl _)

theorem writes_scopes {kinds : Kind → Bool} (tokens : List Token) (draft : Draft) :
    Writes dialect kinds draft (scopes tokens draft).2 := by
  induction tokens generalizing draft with
  | nil => exact .refl draft
  | cons token tokens ih =>
      simp only [scopes]
      split
      · have colon : Writes dialect kinds draft draft.bump := writes_bump draft
        split
        · exact colon.trans ((writes_bump _).trans (ih _))
        · exact colon.trans (writes_error .expectedName (by simp) _)
      · exact .refl draft

theorem writesAtom_name (goesOn : draft.atLineEnd = false) :
    WritesAtom dialect draft (name draft) := by
  unfold name
  simp only
  split
  · exact writesAtom_leave (by split <;> decide) (fun _ => by split <;> trivial) goesOn
      ((writes_expect .ident .expectedName (by simp) _).trans (writes_scopes _ _))
  · exact writesAtom_leave (by split <;> decide) (fun _ => by split <;> trivial) goesOn
      (writes_scopes _ _)

theorem writer_rawArgument : Writer dialect Kind.macroCall.holds rawArgument :=
  fun _ _ => writes_node .macroArg rfl (fun _ => trivial) fun inner _ => writes_takeTokens _ _ inner

theorem writesNode_macroCall (goesOn : draft.atLineEnd = false) :
    WritesNode dialect .macroCall draft (macroCall draft) := by
  apply writesNode_leave goesOn
  have plain : (draft.enter .plain).bump.role = .plain := by
    rw [role_bump, role_enter]
  refine Writes.trans ?_ (writes_expect .rightParen .expectedClosingParen (by simp) _)
  refine (writes_bump _).andThen plain (writer_separated fun item itemPlain => ?_)
  split
  · exact .refl item
  · exact .refl item
  · exact .refl item
  · exact .refl item
  · exact writer_rawArgument item itemPlain

theorem writesNode_braced (goesOn : draft.atLineEnd = false) :
    WritesNode dialect .macroArg draft (braced draft) := by
  apply writesNode_leave goesOn
  have taken : Writes dialect Kind.macroArg.holds (draft.enter .plain).bump
      ((draft.enter .plain).bump.takeTokens braced.step 1).2 := writes_takeTokens _ _ _
  dsimp only
  split
  · exact taken
  · exact taken.trans (writes_error .expectedClosingBrace (by simp) _)

theorem bump_errorAt (cause : Cause) (span : Span) (draft : Draft) :
    (draft.errorAt cause span).bump = draft.bump.errorAt cause span := by
  cases ahead : draft.upcoming with
  | nil =>
      have none : (draft.errorAt cause span).upcoming = [] := ahead
      simp [bump, ahead, none]
  | cons token behind =>
      have some : (draft.errorAt cause span).upcoming = token :: behind := ahead
      rw [bump_of_upcoming ahead, bump_of_upcoming some]
      rfl

theorem writesNode_stray (goesOn : draft.atLineEnd = false) :
    WritesNode dialect .errorNode draft (primary.stray draft) := by
  apply writesNode_leave goesOn
  have stray : Writes dialect Kind.errorNode.holds (draft.enter .plain).bump
      ((draft.enter .plain).bump.errorAt .expectedExpression (draft.enter .plain).nextSpan) :=
    writes_errorAt .expectedExpression (by simp) _ _
  rwa [← bump_errorAt] at stray

theorem isAtom_of_primaryKind? {inCall : Bool} {kind node : Kind}
    (found : primaryKind? inCall kind = some node) : node.isAtom = true := by
  unfold primaryKind? at found
  split at found
  all_goals first | (split at found <;> cases found <;> rfl) | (cases found <;> rfl)

theorem shape_of_primaryKind? {inCall : Bool} {kind node : Kind}
    (found : primaryKind? inCall kind = some node) :
    kind ≠ .errorToken ∧ ∀ trees, Sparse 0 trees → Shape dialect node trees := by
  unfold primaryKind? at found
  split at found
  case h_1 | h_2 | h_3 => cases found; exact ⟨by decide, fun _ sparse => sparse⟩
  case h_8 | h_9 => split at found <;> cases found; exact ⟨by decide, fun _ _ => trivial⟩
  case h_10 => contradiction
  all_goals cases found; exact ⟨by decide, fun _ _ => trivial⟩

/-- Reading an operand without prefix operators either completes one, or leaves
everything as it is in front of something that is no operator. -/
theorem primary_cases (dialect : Dialect) (draft : Draft) :
    (∃ after, primary draft = (.operator true, after) ∧
        WritesAtom dialect draft after) ∨
      (primary draft = (.operator false, draft.error .expectedExpression) ∧
        ∀ text, Operator.infixPower? draft.peek text = none) := by
  unfold primary
  simp only
  split
  · next call =>
      obtain ⟨first, second, behind, ahead, isIdent, -⟩ := upcoming_of_atMacroCall call
      have goesOn : draft.atLineEnd = false :=
        not_atLineEnd_of_peek (peek_of_upcoming ahead) (by rw [isIdent]; rfl)
      exact .inl ⟨_, rfl, writesAtom_of_writesNode (by decide) (fun _ => by trivial)
            (writesNode_macroCall goesOn)⟩
  · split
    · next kind found =>
        have goesOn := not_atLineEnd_of_peek rfl (primaryKind?_eq_some found).1
        obtain ⟨proper, shaped⟩ := shape_of_primaryKind? found
        exact .inl ⟨_, rfl,
          writesAtom_single (isAtom_of_primaryKind? found) shaped goesOn proper⟩
    · split
      · next stands =>
          exact .inl ⟨_, rfl, writesAtom_name (not_atLineEnd_of_peek stands rfl)⟩
      · next stands =>
          exact .inl ⟨_, rfl, writesAtom_name (not_atLineEnd_of_peek stands rfl)⟩
      · next stands => exact .inr ⟨rfl, fun _ => by rw [stands]; rfl⟩
      · next stands => exact .inr ⟨rfl, fun _ => by rw [stands]; rfl⟩
      · next stands => exact .inr ⟨rfl, fun _ => by rw [stands]; rfl⟩
      · next stands => exact .inr ⟨rfl, fun _ => by rw [stands]; rfl⟩
      · next stands =>
          have goesOn := not_atLineEnd_of_peek stands rfl
          split
          · exact .inl ⟨_, rfl, writesAtom_of_writesNode (by decide) (fun _ => by trivial)
            (writesNode_braced goesOn)⟩
          · exact .inl ⟨_, rfl, writesAtom_of_writesNode (by decide) (fun _ => by trivial)
            (writesNode_stray goesOn)⟩
      · next notEol notEof _ _ _ =>
          have goesOn : draft.atLineEnd = false :=
            endsLine_eq_false (by assumption) (by assumption)
          exact .inl ⟨_, rfl, writesAtom_of_writesNode (by decide) (fun _ => by trivial)
            (writesNode_stray goesOn)⟩

/-- How the innermost of some open nodes holds on to what follows. -/
def grip : List Frame → Nat
  | [] => 0
  | frame :: _ => frame.role.power

/-- A node that the machine has opened where `outer` holds on to what follows. -/
structure Waits (dialect : Dialect) (outer : Nat) (frame : Frame) : Prop where
  trivial : ∀ token ∈ frame.gap, token.isTrivia = true
  sound : Sound dialect Kind.isOperand frame.children []
  nonempty : frame.children ≠ []
  shape :
    match frame.role with
    | .plain => False
    | .unary power => PrefixShape power frame.children ∧ Sparse 0 frame.children
    | .binary power =>
        (outer < power ∧ InfixShape power frame.children) ∧ Sparse 1 frame.children
    | .paren => Sparse 0 frame.children
    | .call => Clean frame.children

/-- The nodes that the machine has opened, innermost first. -/
inductive Stack (dialect : Dialect) : List Frame → Prop
  | nil : Stack dialect []
  | cons {frame : Frame} {outer : List Frame} :
      Waits dialect (grip outer) frame → Stack dialect outer →
        Stack dialect (frame :: outer)

/-- The power of an operator that stands next. -/
def nextPower? (draft : Draft) : Option Nat :=
  Operator.infixPower? draft.peek (draft.textAt 0)

/-- An operand stands where `outer` holds on to it, in front of an operator of
power `next?` if there is one. -/
structure Stands (outer : Nat) (next? : Option Nat) (operand : Written) : Prop where
  tighter : ∀ power, operand.power? = some power → outer < power
  notLooser : ∀ power next, operand.power? = some power → next? = some next → next ≤ power
  closed : operand.EndsInNegation → next? = none

theorem stands_of_isAtom {operand : Written} (atomic : operand.kind.isAtom = true)
    (outer : Nat) (next? : Option Nat) : Stands outer next? operand := by
  obtain ⟨notBinary, notUnary⟩ := Kind.not_operation_of_isAtom atomic
  have noPower := power?_of_kind_ne notBinary
  refine ⟨?_, ?_, fun ends => absurd ends (not_endsInNegation_of_kind_ne notBinary notUnary)⟩
  · intro power found
    rw [noPower] at found
    contradiction
  · intro power next found
    rw [noPower] at found
    contradiction

/-- What has been added to the innermost open node since it was opened or since an
operand was last looked for. -/
inductive Current (dialect : Dialect) (outer : Nat) (next? : Option Nat) :
    Stage → List Written → Prop
  | operand : Current dialect outer next? .operand []
  | missing : next? = none → Current dialect outer next? (.operator false) []
  | found {gap : List Token} {operand : Written} :
      (∀ token ∈ gap, token.isTrivia = true) → IsOperand dialect operand →
        Stands outer next? operand →
          Current dialect outer next? (.operator true) (gap.map .leaf ++ [operand])

/-- What the machine has done since it started at `base`. -/
inductive Climbs (dialect : Dialect) (base : Draft) : State → Prop
  | working {frames : List Frame} {current : List Written} {reports : List Diagnostic}
      {stage : Stage} {draft : Draft} :
      Builds frames current reports base draft → Stack dialect frames →
        Current dialect (grip frames) (nextPower? draft) stage current →
          (∀ diagnostic ∈ reports, diagnostic.IsOfLine) →
            Climbs dialect base (stage, draft)
  | done {draft : Draft} :
      Writes dialect Kind.isOperand base draft → Climbs dialect base (.done, draft)

section

variable {frames : List Frame} {current : List Written} {reports : List Diagnostic}
  {token : Token} {behind : List Token}

theorem nextPower?_of_upcoming (ahead : draft.upcoming = token :: behind) :
    nextPower? draft = Operator.infixPower? token.kind token.text := by
  rw [nextPower?, peek_of_upcoming ahead, textAt_of_upcoming ahead]

theorem prefixPower?_proper {kind : Kind} {text : Bytes} {power : Nat}
    (found : Operator.prefixPower? kind text = some power) : kind ≠ .errorToken := by
  rintro rfl
  contradiction

theorem infixPower?_proper {kind : Kind} {text : Bytes} {power : Nat}
    (found : Operator.infixPower? kind text = some power) : kind ≠ .errorToken := by
  rintro rfl
  contradiction

theorem builds_opened (builds : Builds frames [] reports base draft)
    (ahead : draft.upcoming = token :: behind) (role : Role) :
    Builds (⟨draft.trivia, role, [.leaf token]⟩ :: frames) [] reports base
      (draft.enter role).bump := by
  have aheadInside : (draft.enter role).upcoming = token :: behind := by
    rw [upcoming_enter, ahead]
  have taken := ((builds.enter role).append (wrote_bump aheadInside)).settle
  rwa [trivia_enter] at taken

theorem climbs_entered (builds : Builds frames [] reports base draft)
    (stack : Stack dialect frames) (ofLine : ∀ diagnostic ∈ reports, diagnostic.IsOfLine)
    (ahead : draft.upcoming = token :: behind) (proper : draft.peek ≠ .errorToken)
    {role : Role}
    (shape :
      match role with
      | .unary power => PrefixShape power [.leaf token]
      | .paren | .call => True
      | _ => False) :
    Climbs dialect base (.operand, (draft.enter role).bump) := by
  rw [peek_of_upcoming ahead] at proper
  have sparse : Sparse 0 [.leaf token] := sparse_leaf proper
  have waits : Waits dialect (grip frames) ⟨draft.trivia, role, [.leaf token]⟩ := by
    refine ⟨fun _ => isTrivia_of_mem_trivia, sound_leaf token, by simp, ?_⟩
    cases role with
    | unary => exact ⟨shape, sparse⟩
    | paren => exact sparse
    | call => exact sparse.clean
    | plain | binary => contradiction
  exact .working (builds_opened builds ahead role) (.cons waits stack) .operand ofLine

theorem climbs_of_writesAtom (builds : Builds frames [] reports base draft)
    (stack : Stack dialect frames) (ofLine : ∀ diagnostic ∈ reports, diagnostic.IsOfLine)
    {after : Draft} (writes : WritesAtom dialect draft after) :
    Climbs dialect base (.operator true, after) := by
  obtain ⟨operand, more, wrote, isOperand, atomic, moreOfLine⟩ := writes
  refine .working (builds.append wrote) stack
    (.found (fun _ => isTrivia_of_mem_trivia) isOperand (stands_of_isAtom atomic _ _)) ?_
  intro diagnostic member
  exact (List.mem_append.mp member).elim (moreOfLine diagnostic) (ofLine diagnostic)

theorem climbs_callHead (builds : Builds frames [] reports base draft)
    (stack : Stack dialect frames) (ofLine : ∀ diagnostic ∈ reports, diagnostic.IsOfLine)
    (stands : draft.peek = .pseudoFnKw) : Climbs dialect base (callHead draft) := by
  have goesOn := not_atLineEnd_of_peek stands rfl
  have proper : draft.peek ≠ .errorToken := by rw [stands]; decide
  obtain ⟨token, behind, ahead, -⟩ := upcoming_of_not_atLineEnd goesOn
  have shaped : ∀ trees, Sparse 0 trees → Shape dialect .callExpr trees :=
    fun _ sparse => sparse.clean
  unfold callHead
  simp only
  split
  · next paren =>
      have parenProper : (draft.enter .call).bump.peek ≠ .errorToken := by rw [paren]; decide
      split
      · next closing =>
          refine climbs_of_writesAtom builds stack ofLine
            (writesAtom_tokens rfl shaped goesOn proper ((writesTokens_bump parenProper).trans
              (writesTokens_bump ?_)))
          rw [closing]
          decide
      · obtain ⟨opening, rest, next, -⟩ :=
          upcoming_of_not_atLineEnd (not_atLineEnd_of_peek paren rfl)
        refine .working ((builds_opened builds ahead .call).bump next)
          (.cons ⟨fun _ => isTrivia_of_mem_trivia, ?_, by simp, ?_⟩ stack) .operand ofLine
        · exact (sound_leaf token).append
            ((sound_leaves _).append (sound_leaf opening))
        · rw [peek_of_upcoming ahead] at proper
          exact (sparse_leaf proper).clean.append (sparse_bump next parenProper).clean
  · exact climbs_of_writesAtom builds stack ofLine
      (writesAtom_tokens rfl shaped goesOn proper
        (writesTokens_error .expectedOpeningParen (by simp) _))

theorem climbs_operandStep (builds : Builds frames [] reports base draft)
    (stack : Stack dialect frames) (ofLine : ∀ diagnostic ∈ reports, diagnostic.IsOfLine) :
    Climbs dialect base (operandStep draft) := by
  unfold operandStep
  split
  · next power found =>
      have goesOn := not_atLineEnd_of_peek rfl (prefixPower?_eq_some found)
      have proper := prefixPower?_proper found
      obtain ⟨token, behind, ahead, -⟩ := upcoming_of_not_atLineEnd goesOn
      rw [peek_of_upcoming ahead, textAt_of_upcoming ahead] at found
      exact climbs_entered builds stack ofLine ahead proper
        (.intro (not_isTrivia_of_upcoming ahead) found (by simp))
  · split
    · next stands =>
        obtain ⟨token, behind, ahead, -⟩ :=
          upcoming_of_not_atLineEnd (not_atLineEnd_of_peek stands rfl)
        exact climbs_entered builds stack ofLine ahead (by rw [stands]; decide) trivial
    · next stands => exact climbs_callHead builds stack ofLine stands
    · rcases primary_cases dialect draft with ⟨after, read, writes⟩ | ⟨read, noOperator⟩
      · rw [read]
        exact climbs_of_writesAtom builds stack ofLine writes
      · rw [read]
        have reported := builds.append (wrote_error .expectedExpression draft)
        refine .working reported stack (.missing (noOperator _)) ?_
        intro diagnostic member
        rcases List.mem_cons.mp member with rfl | old
        · exact ⟨.expectedExpression, by simp, rfl⟩
        · exact ofLine diagnostic old

theorem Current.sound {outer : Nat} {next? : Option Nat} {stage : Stage}
    (shape : Current dialect outer next? stage current) :
    Sound dialect Kind.isOperand current [] := by
  cases shape with
  | operand => exact sound_nil
  | missing => exact sound_nil
  | found _ isOperand _ =>
      exact (sound_leaves _).append (sound_singleton isOperand.formed isOperand.kind)

theorem Current.sparse {outer : Nat} {next? : Option Nat} {stage : Stage}
    (shape : Current dialect outer next? stage current) : Sparse 1 current := by
  cases shape with
  | operand => exact sparse_nil 1
  | missing => exact sparse_nil 1
  | found trivial isOperand _ =>
      exact (sparse_gap trivial).append (sparse_node isOperand.isNode)

theorem Current.tighter {outer : Nat} {next? : Option Nat} {stage : Stage}
    (shape : Current dialect outer next? stage current) :
    ∀ child ∈ current, ∀ inner, child.power? = some inner → outer < inner := by
  cases shape with
  | operand => simp
  | missing => simp
  | found _ _ stands =>
      intro child member inner found
      rcases List.mem_append.mp member with isGap | isOperand
      · obtain ⟨token, -, rfl⟩ := List.mem_map.mp isGap
        rw [power?_leaf] at found
        contradiction
      · obtain rfl := List.mem_singleton.mp isOperand
        exact stands.tighter inner found

/-- A negation along the right edge leaves no operator to its right. -/
theorem Current.closed {outer : Nat} {next? : Option Nat} {complete : Bool}
    (shape : Current dialect outer next? (.operator complete) current)
    {children : List Written} {child : Written}
    (last : (children ++ current).getLast? = some child)
    (ends : child.EndsInNegation) : next? = none := by
  cases shape with
  | missing noOperator => exact noOperator
  | found _ _ stands =>
      rw [← List.append_assoc, List.getLast?_concat] at last
      obtain rfl := Option.some.inj last
      exact stands.closed ends

theorem infixPower?_bounds {kind : Kind} {text : Bytes} {power : Nat}
    (found : Operator.infixPower? kind text = some power) :
    Operator.negationPower < power ∧ power < Operator.tightPower := by
  have dotted : ∀ entry ∈ Operator.dottedInfixes,
      Operator.negationPower < entry.2 ∧ entry.2 < Operator.tightPower := by decide
  unfold Operator.infixPower? at found
  split at found
  case h_18 =>
    obtain ⟨before, after, split, -⟩ := List.lookup_eq_some_iff.mp found
    exact dotted (Bytes.lower text, power) (by simp [split])
  case h_19 => contradiction
  all_goals
    obtain rfl := Option.some.inj found
    decide

theorem prefixPower?_cases {kind : Kind} {text : Bytes} {power : Nat}
    (found : Operator.prefixPower? kind text = some power) :
    power = Operator.negationPower ∨ power = Operator.tightPower := by
  have dotted : ∀ entry ∈ Operator.dottedPrefixes,
      entry.2 = Operator.negationPower ∨ entry.2 = Operator.tightPower := by decide
  unfold Operator.prefixPower? at found
  split at found
  case h_8 =>
    obtain ⟨before, after, split, -⟩ := List.lookup_eq_some_iff.mp found
    exact dotted (Bytes.lower text, power) (by simp [split])
  case h_9 => contradiction
  all_goals
    obtain rfl := Option.some.inj found
    decide

theorem stands_unary {outer power : Nat} {next? : Option Nat} {complete : Bool}
    {children : List Written} (shape : PrefixShape power (children ++ current))
    (inner : Current dialect power next? (.operator complete) current)
    (held : ∀ next, next? = some next → Operator.negationPower < next ∧ next ≤ power) :
    Stands outer next? (.node .unaryExpr (children ++ current)) where
  tighter inner found := by
    rw [power?_of_kind_ne (by simp [Written.kind])] at found
    contradiction
  notLooser inner next found := by
    rw [power?_of_kind_ne (by simp [Written.kind])] at found
    contradiction
  closed ends := by
    cases ends with
    | here negation =>
        have isLoosest := shape.eq_negationPower negation
        rw [Option.eq_none_iff_forall_ne_some]
        intro next found
        have bounds := held next found
        omega
    | last _ last ends => exact inner.closed last ends

theorem stands_binary {outer power : Nat} {next? : Option Nat} {complete : Bool}
    {children : List Written} (shape : InfixShape power (children ++ current))
    (tighter : outer < power)
    (inner : Current dialect power next? (.operator complete) current)
    (held : ∀ next, next? = some next → next ≤ power) :
    Stands outer next? (.node .binaryExpr (children ++ current)) where
  tighter inner found := by
    rw [shape.power?] at found
    obtain rfl := Option.some.inj found
    exact tighter
  notLooser inner next found isNext := by
    rw [shape.power?] at found
    obtain rfl := Option.some.inj found
    exact held next isNext
  closed ends := by
    cases ends with
    | here negation =>
        have isBinary := negation.1
        contradiction
    | last _ last ends => exact inner.closed last ends

theorem climbs_operation {frame : Frame} {outer : List Frame} {complete : Bool}
    {kind : Kind} (builds : Builds (frame :: outer) current reports base draft)
    (waits : Waits dialect (grip outer) frame) (stack : Stack dialect outer)
    (inner : Current dialect frame.role.power (nextPower? draft) (.operator complete) current)
    (ofLine : ∀ diagnostic ∈ reports, diagnostic.IsOfLine)
    (isOperand : kind.isOperand = true) (holds : kind.holds = Kind.isOperand)
    (shape : Shape dialect kind (frame.children ++ current))
    (stands : Stands (grip outer) (nextPower? draft)
      (.node kind (frame.children ++ current))) :
    Climbs dialect base (.operator true, draft.leave kind) := by
  have nonempty : frame.children ++ current ≠ [] := by simp [waits.nonempty]
  have sound := waits.sound.append inner.sound
  rw [← holds] at sound
  exact .working (builds.leave nonempty kind) stack
    (.found waits.trivial ⟨.node sound.among shape sound.formed, rfl, isOperand⟩ stands) ofLine

/-- Parentheses and calls are complete behind a closing parenthesis, or where it is
missing. -/
theorem climbs_parens {frame : Frame} {outer : List Frame} {complete : Bool} {kind : Kind}
    (builds : Builds (frame :: outer) current reports base draft)
    (waits : Waits dialect (grip outer) frame) (stack : Stack dialect outer)
    (inner : Current dialect frame.role.power (nextPower? draft) (.operator complete) current)
    (ofLine : ∀ diagnostic ∈ reports, diagnostic.IsOfLine)
    (atomic : kind.isAtom = true) (holds : kind.holds = Kind.isOperand)
    (shaped : ∀ trees, Sparse 0 trees → Shape dialect kind (frame.children ++ (current ++ trees))) :
    Climbs dialect base
      (.operator true,
        (draft.expect .rightParen .expectedClosingParen).leave kind) := by
  have closes : WritesTokens dialect Kind.isOperand draft
      (draft.expect .rightParen .expectedClosingParen) :=
    writesTokens_expect (by decide) .expectedClosingParen (by simp) draft
  obtain ⟨trees, more, wrote, closing, sparse⟩ := closes
  have sound := (waits.sound.append inner.sound).append closing
  rw [← holds, List.append_assoc] at sound
  have nonempty : frame.children ++ (current ++ trees) ≠ [] := by simp [waits.nonempty]
  refine .working ((builds.append wrote).leave nonempty kind) stack
    (.found waits.trivial
      ⟨.node sound.among (shaped trees sparse) sound.formed, rfl,
        Kind.isOperand_of_isAtom atomic⟩
      (stands_of_isAtom (show (Written.node kind _).kind.isAtom = true from atomic) _ _)) ?_
  intro diagnostic member
  exact (List.mem_append.mp member).elim (closing.ofLine diagnostic) (ofLine diagnostic)

theorem climbs_comma {frame : Frame} {outer : List Frame} {complete : Bool}
    (builds : Builds (frame :: outer) current reports base draft)
    (waits : Waits dialect (grip outer) frame) (stack : Stack dialect outer)
    (inner : Current dialect frame.role.power (nextPower? draft) (.operator complete) current)
    (ofLine : ∀ diagnostic ∈ reports, diagnostic.IsOfLine)
    (isCall : frame.role = .call) (clean : Clean frame.children)
    (comma : draft.peek = .comma) : Climbs dialect base (.operand, draft.bump) := by
  obtain ⟨token, behind, ahead, -⟩ :=
    upcoming_of_not_atLineEnd (not_atLineEnd_of_peek comma rfl)
  refine .working (builds.bump ahead) (.cons ⟨waits.trivial, ?_, by simp, ?_⟩ stack)
    .operand ofLine
  · exact waits.sound.append
      (inner.sound.append ((sound_leaves _).append (sound_leaf token)))
  · rw [isCall]
    exact clean.append (inner.sparse.clean.append
      (sparse_bump ahead (by rw [comma]; decide)).clean)

theorem climbs_closeStep (plain : base.role = .plain) {complete : Bool}
    (builds : Builds frames current reports base draft) (stack : Stack dialect frames)
    (inner : Current dialect (grip frames) (nextPower? draft) (.operator complete) current)
    (ofLine : ∀ diagnostic ∈ reports, diagnostic.IsOfLine)
    (held : ∀ next, nextPower? draft = some next → next ≤ grip frames) :
    Climbs dialect base (closeStep draft) := by
  have role := builds.role
  cases stack with
  | nil =>
      rw [closeStep, role, List.head?_nil, Option.map_none, Option.getD_none, plain]
      exact .done ⟨current, reports, builds, inner.sound.formed, inner.sound.among, ofLine⟩
  | @cons frame outer waits stack =>
      rw [List.head?_cons, Option.map_some, Option.getD_some] at role
      have shape := waits.shape
      change Current dialect frame.role.power _ _ _ at inner
      have tighter := inner.tighter
      rw [closeStep, role]
      cases isRole : frame.role with
      | plain =>
          rw [isRole] at shape
          contradiction
      | unary power =>
          rw [isRole] at shape tighter
          have operation := shape.1.append tighter
          refine climbs_operation builds waits stack inner ofLine rfl rfl
            ⟨⟨power, operation⟩, shape.2.append inner.sparse⟩
            (stands_unary operation (isRole ▸ inner) ?_)
          intro next found
          have atMost := held next found
          rw [grip, isRole] at atMost
          exact ⟨(infixPower?_bounds found).1, atMost⟩
      | binary power =>
          rw [isRole] at shape tighter
          have operation := shape.1.2.append tighter
          refine climbs_operation builds waits stack inner ofLine rfl rfl
            ⟨⟨power, operation⟩, shape.2.append inner.sparse⟩
            (stands_binary operation shape.1.1 (isRole ▸ inner) ?_)
          intro next found
          have atMost := held next found
          rwa [grip, isRole] at atMost
      | paren =>
          rw [isRole] at shape
          exact climbs_parens builds waits stack inner ofLine rfl rfl
            fun _ sparse => shape.append (inner.sparse.append sparse)
      | call =>
          rw [isRole] at shape
          dsimp only
          split
          · next comma => exact climbs_comma builds waits stack inner ofLine isRole shape comma
          · exact climbs_parens builds waits stack inner ofLine rfl rfl
              fun _ sparse => shape.append (inner.sparse.clean.append sparse.clean)

theorem climbs_taken {power : Nat} (builds : Builds frames current reports base draft)
    (stack : Stack dialect frames)
    (inner : Current dialect (grip frames) (nextPower? draft) (.operator true) current)
    (ofLine : ∀ diagnostic ∈ reports, diagnostic.IsOfLine)
    (next : nextPower? draft = some power) (tighter : grip frames < power) :
    Climbs dialect base (.operand, (draft.wrap (.binary power)).bump) := by
  cases inner with
  | @found gap operand trivial isOperand stands =>
      obtain ⟨token, behind, ahead, -⟩ := upcoming_of_not_atLineEnd
        (not_atLineEnd_of_peek rfl (infixPower?_eq_some next))
      have isOperator : Operator.infixPower? token.kind token.text = some power := by
        rw [← nextPower?_of_upcoming ahead, next]
      have shape : InfixShape power (operand :: (draft.trivia.map .leaf ++ [.leaf token])) :=
        .intro isOperand.isNode
          (fun inner binary => stands.notLooser inner power binary next)
          (fun ends => absurd (stands.closed ends) (by simp [next]))
          (fun _ => isTrivia_of_mem_trivia) (not_isTrivia_of_upcoming ahead)
          isOperator (by simp)
      have sparse : Sparse 1 (operand :: (draft.trivia.map .leaf ++ [.leaf token])) :=
        (sparse_node isOperand.isNode).append (sparse_bump ahead (infixPower?_proper next))
      refine .working ((builds.wrap (.binary power)).bump ahead)
        (.cons ⟨trivial, ?_, by simp, ⟨tighter, shape⟩, sparse⟩ stack) .operand ofLine
      exact (sound_singleton isOperand.formed isOperand.kind).append
        ((sound_leaves _).append (sound_leaf token))

theorem climbs_operatorStep (plain : base.role = .plain) {complete : Bool}
    (builds : Builds frames current reports base draft) (stack : Stack dialect frames)
    (inner : Current dialect (grip frames) (nextPower? draft) (.operator complete) current)
    (ofLine : ∀ diagnostic ∈ reports, diagnostic.IsOfLine) :
    Climbs dialect base (operatorStep complete draft) := by
  have gripEq : draft.role.power = grip frames := by
    rw [builds.role]
    cases frames with
    | nil => rw [List.head?_nil, Option.map_none, Option.getD_none, plain]; rfl
    | cons => rfl
  unfold operatorStep
  split
  · next power found =>
      have next : nextPower? draft = some power := found
      split
      · next binds =>
          simp only [Bool.and_eq_true, decide_eq_true_eq] at binds
          obtain ⟨rfl, tighter⟩ := binds
          exact climbs_taken builds stack inner ofLine next (gripEq ▸ tighter)
      · next loose =>
          refine climbs_closeStep plain builds stack inner ofLine ?_
          intro other isNext
          cases inner with
          | missing noOperator =>
              rw [noOperator] at isNext
              contradiction
          | found =>
              obtain rfl := Option.some.inj (next.symm.trans isNext)
              simp only [Bool.true_and, decide_eq_true_eq, gripEq] at loose
              omega
  · next noOperator =>
      refine climbs_closeStep plain builds stack inner ofLine ?_
      intro next found
      exact absurd (noOperator.symm.trans found) (by simp)

end

theorem climbs_step (plain : base.role = .plain) {state next : State}
    (climbs : Climbs dialect base state) (stepped : step state = some next) :
    Climbs dialect base next := by
  cases climbs with
  | working builds stack current ofLine =>
      cases current with
      | operand =>
          cases stepped
          exact climbs_operandStep builds stack ofLine
      | missing noOperator =>
          cases stepped
          exact climbs_operatorStep plain builds stack (.missing noOperator) ofLine
      | found trivial isOperand stands =>
          cases stepped
          exact climbs_operatorStep plain builds stack (.found trivial isOperand stands)
            ofLine
  | done => contradiction

theorem climbs_run (plain : base.role = .plain) (fuel : Nat) {state : State}
    (climbs : Climbs dialect base state) : Climbs dialect base (run fuel state) := by
  -- Induction on the fuel; every step keeps `Climbs`, whatever stands next.
  induction fuel generalizing state with
  | zero => exact climbs
  | succ fuel ih =>
      cases stepped : step state with
      | none => rwa [run, stepped]
      | some next =>
          rw [run, stepped]
          exact ih (climbs_step plain climbs stepped)

/-- An expression is a sound operand or nothing. -/
theorem writer_read (dialect : Dialect) : Writer dialect Kind.isOperand read := by
  intro draft plain
  have started : Climbs dialect draft (.operand, draft) :=
    .working (builds_refl draft) .nil .operand (by simp)
  have ended := climbs_run plain (3 * draft.rest.length + 3) started
  rw [← runAlong_eq_run] at ended
  have stopped := runAlong_done plain
  rw [read]
  generalize runAlong draft.rest (.operand, draft) = state at ended stopped ⊢
  cases ended with
  | working _ _ current =>
      cases current <;> contradiction
  | done writes => exact writes

end Expression
end Asm6502
