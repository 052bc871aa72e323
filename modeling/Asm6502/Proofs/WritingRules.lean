import Asm6502.Proofs.Writing

/-!
# Rules that write well

What the grammar is composed of adds well formed trees to the innermost open
node and reports faults of the line.  `Writes` says so between two drafts, and
carries over to nodes, repetition and recovery.
-/

namespace Asm6502

/-- A fault that a line can have by itself. -/
def Cause.IsOfLine (cause : Cause) : Prop :=
  ∀ block, cause ≠ .unterminatedBlock block

@[simp]
theorem Cause.isOfLine_iff (cause : Cause) :
    cause.IsOfLine ↔ ∀ block, cause ≠ .unterminatedBlock block :=
  Iff.rfl

def Diagnostic.IsOfLine (diagnostic : Diagnostic) : Prop :=
  ∃ cause : Cause, cause.IsOfLine ∧ diagnostic.message = cause.message

namespace Draft

variable {dialect : Dialect} {kinds : Kind → Bool}

/-- Trees as the grammar makes them, and faults of a line. -/
structure Sound (dialect : Dialect) (kinds : Kind → Bool) (trees : List Written)
    (reports : List Diagnostic) : Prop where
  formed : ∀ written ∈ trees, written.Formed dialect
  among : ∀ written ∈ trees, written.Among kinds
  ofLine : ∀ diagnostic ∈ reports, diagnostic.IsOfLine

/-- Between two drafts with the same open nodes, sound trees have been added that
stand for the tokens taken meanwhile. -/
def Writes (dialect : Dialect) (kinds : Kind → Bool) (before after : Draft) : Prop :=
  ∃ trees reports, Wrote trees reports before after ∧ Sound dialect kinds trees reports

/-- A rule that writes wherever the node it works in is closed by its own rule. -/
def Writer (dialect : Dialect) (kinds : Kind → Bool) (rule : Draft → Draft) : Prop :=
  ∀ draft : Draft, draft.role = .plain → Writes dialect kinds draft (rule draft)

variable {first second third draft : Draft} {trees more : List Written}
  {reports others : List Diagnostic}

theorem sound_nil : Sound dialect kinds [] [] :=
  ⟨by simp, by simp, by simp⟩

theorem Sound.append (sound : Sound dialect kinds trees reports)
    (next : Sound dialect kinds more others) :
    Sound dialect kinds (trees ++ more) (others ++ reports) where
  formed written member :=
    (List.mem_append.mp member).elim (sound.formed written) (next.formed written)
  among written member :=
    (List.mem_append.mp member).elim (sound.among written) (next.among written)
  ofLine diagnostic member :=
    (List.mem_append.mp member).elim (next.ofLine diagnostic) (sound.ofLine diagnostic)

theorem Sound.mono {wider : Kind → Bool} (sound : Sound dialect kinds trees reports)
    (included : ∀ kind, kinds kind → wider kind) : Sound dialect wider trees reports :=
  ⟨sound.formed, fun written member => (sound.among written member).mono included,
    sound.ofLine⟩

theorem sound_leaves (tokens : List Token) :
    Sound dialect kinds (tokens.map .leaf) [] where
  formed written member := by
    obtain ⟨token, -, rfl⟩ := List.mem_map.mp member
    exact .leaf token
  among := Written.among_leaves kinds tokens
  ofLine := by simp

theorem sound_leaf (token : Token) : Sound dialect kinds [.leaf token] [] :=
  sound_leaves [token]

theorem sound_singleton {written : Written} (formed : written.Formed dialect)
    (accepted : kinds written.kind = true) : Sound dialect kinds [written] [] where
  formed := by simpa using formed
  among := by simpa using .inr accepted
  ofLine := by simp

/-- A node whose children are sound, if they have the shape that is asked for. -/
theorem Sound.node {kind : Kind} (sound : Sound dialect kind.holds trees reports)
    (shape : Written.Shape dialect kind trees) (accepted : kinds kind = true) :
    Sound dialect kinds [.node kind trees] reports where
  formed := by simpa using .node sound.among shape sound.formed
  among := by simpa using .inr accepted
  ofLine := sound.ofLine

theorem Writes.refl (draft : Draft) : Writes dialect kinds draft draft :=
  ⟨[], [], builds_refl draft, sound_nil⟩

theorem Writes.trans (writes : Writes dialect kinds first second)
    (next : Writes dialect kinds second third) : Writes dialect kinds first third := by
  obtain ⟨trees, reports, wrote, sound⟩ := writes
  obtain ⟨more, others, wroteMore, soundMore⟩ := next
  exact ⟨_, _, wrote.append wroteMore, sound.append soundMore⟩

theorem Writes.role (writes : Writes dialect kinds first second) :
    second.role = first.role := by
  obtain ⟨trees, reports, wrote, -⟩ := writes
  exact wrote.role

theorem Writes.andThen (writes : Writes dialect kinds first second)
    (plain : first.role = .plain) {rule : Draft → Draft}
    (writer : Writer dialect kinds rule) : Writes dialect kinds first (rule second) :=
  writes.trans (writer second (by rw [writes.role, plain]))

theorem writes_takeTrivia (draft : Draft) :
    Writes dialect kinds draft draft.takeTrivia :=
  ⟨_, _, wrote_takeTrivia draft, sound_leaves _⟩

theorem writes_bump (draft : Draft) : Writes dialect kinds draft draft.bump := by
  cases ahead : draft.upcoming with
  | nil =>
      have stays : draft.bump = draft := by simp [bump, ahead]
      rw [stays]
      exact .refl draft
  | cons token behind =>
      refine ⟨_, _, wrote_bump ahead, ?_⟩
      have leaves : Sound dialect kinds ((draft.trivia ++ [token]).map .leaf) [] :=
        sound_leaves _
      simpa using leaves

theorem writes_errorAt (cause : Cause) (ofLine : cause.IsOfLine) (span : Span)
    (draft : Draft) : Writes dialect kinds draft (draft.errorAt cause span) :=
  ⟨_, _, wrote_errorAt cause span draft, by simp, by simp,
    by simpa using ⟨cause, ofLine, rfl⟩⟩

theorem writes_error (cause : Cause) (ofLine : cause.IsOfLine) (draft : Draft) :
    Writes dialect kinds draft (draft.error cause) :=
  writes_errorAt cause ofLine draft.nextSpan draft

theorem writes_expect (kind : Kind) (cause : Cause) (ofLine : cause.IsOfLine)
    (draft : Draft) : Writes dialect kinds draft (draft.expect kind cause) := by
  unfold expect
  split
  · exact writes_bump draft
  · exact writes_error cause ofLine draft

section TakeTokens

variable {σ : Type} (next : σ → Kind → Option σ)

theorem writes_takeTokens_go (tokens : List Token) (state : σ) (draft : Draft) :
    Writes dialect kinds draft (takeTokens.go next tokens state draft).2 := by
  induction tokens generalizing state draft with
  | nil => exact .refl draft
  | cons token tokens ih =>
      unfold takeTokens.go
      split
      · exact .refl draft
      · split
        · exact .refl draft
        · next state' _ => exact (writes_bump draft).trans (ih state' draft.bump)

theorem writes_takeTokens (state : σ) (draft : Draft) :
    Writes dialect kinds draft (draft.takeTokens next state).2 :=
  writes_takeTokens_go next draft.rest state draft

end TakeTokens

theorem writes_takeUntil (stop : Kind → Bool) (draft : Draft) :
    Writes dialect kinds draft (draft.takeUntil stop) :=
  writes_takeTokens _ _ draft

theorem role_bump (draft : Draft) : draft.bump.role = draft.role := by
  rw [role_eq, role_eq, tags_bump]

theorem builds_enter (role : Role) (draft : Draft) :
    Builds [⟨draft.trivia, role, []⟩] [] [] draft (draft.enter role) :=
  (builds_refl draft).enter role

/-- What has been written since a node was opened becomes its children. -/
theorem wrote_leave {role : Role} {draft inner : Draft}
    (inside : Wrote trees reports (draft.enter role) inner) (nonempty : trees ≠ [])
    (kind : Kind) :
    Wrote (draft.trivia.map .leaf ++ [.node kind trees]) reports draft
      (inner.leave kind) := by
  have built := (builds_enter role draft).append inside
  rw [List.append_nil] at built
  exact built.leave nonempty kind

theorem wrote_leave_nil {role : Role} {draft inner : Draft}
    (inside : Wrote [] reports (draft.enter role) inner) (kind : Kind) :
    Wrote (draft.trivia.map .leaf) reports draft (inner.leave kind) := by
  have built := (builds_enter role draft).append inside
  rw [List.append_nil, List.append_nil] at built
  exact built.leave_nil kind

theorem writes_leave {role : Role} {kind : Kind} {draft inner : Draft}
    (accepted : kinds kind = true) (wrote : Wrote trees reports (draft.enter role) inner)
    (sound : Sound dialect kind.holds trees reports)
    (shape : Written.Shape dialect kind trees) :
    Writes dialect kinds draft (inner.leave kind) := by
  have leaves : Sound dialect kinds (draft.trivia.map .leaf) [] := sound_leaves _
  by_cases empty : trees = []
  · subst empty
    exact ⟨_, _, wrote_leave_nil wrote kind, leaves.formed, leaves.among, sound.ofLine⟩
  · refine ⟨_, _, wrote_leave wrote empty kind, ?_⟩
    simpa using leaves.append (sound.node shape accepted)

/-- A node has been written behind the trivia before it. -/
def WritesNode (dialect : Dialect) (kind : Kind) (before after : Draft) : Prop :=
  ∃ trees reports, Wrote (before.trivia.map .leaf ++ [.node kind trees]) reports before after ∧
    trees ≠ [] ∧ Sound dialect kind.holds trees reports

theorem writesNode_leave {role : Role} {kind : Kind} {draft inner : Draft}
    (goesOn : draft.atLineEnd = false)
    (inside : Writes dialect kind.holds (draft.enter role).bump inner) :
    WritesNode dialect kind draft (inner.leave kind) := by
  obtain ⟨token, behind, ahead, -⟩ := upcoming_of_not_atLineEnd goesOn
  rw [← upcoming_enter role] at ahead
  obtain ⟨trees, reports, wrote, sound⟩ := inside
  have first : Sound dialect kind.holds
      (((draft.enter role).trivia ++ [token]).map .leaf) [] := sound_leaves _
  rw [List.map_append] at first
  have nonempty :
      (draft.enter role).trivia.map .leaf ++ [token].map .leaf ++ trees ≠ [] := by
    simp
  exact ⟨_, _, wrote_leave ((wrote_bump ahead).append wrote) nonempty kind, nonempty,
    first.append sound⟩

/-- A node of a shape that asks for nothing more than the right kinds. -/
theorem writes_node (kind : Kind) (accepted : kinds kind = true)
    (unshaped : ∀ trees, Written.Shape dialect kind trees) {rule : Draft → Draft}
    {draft : Draft}
    (inside : ∀ inner : Draft, inner.role = .plain →
      Writes dialect kind.holds inner (rule inner)) :
    Writes dialect kinds draft (draft.node kind rule) := by
  obtain ⟨trees, reports, wrote, sound⟩ :=
    inside (draft.enter .plain) (role_enter .plain draft)
  exact writes_leave accepted wrote sound (unshaped trees)

theorem writes_skip (accepted : kinds .errorNode = true) (stop : Kind → Bool)
    (draft : Draft) : Writes dialect kinds draft (draft.skip stop) :=
  writes_node .errorNode accepted (fun _ => trivial) fun inner _ =>
    (writes_bump inner).trans (writes_takeUntil stop inner.bump)

theorem writes_recover (accepted : kinds .errorNode = true) (cause : Cause)
    (ofLine : cause.IsOfLine) (stop : Kind → Bool) (draft : Draft) :
    Writes dialect kinds draft (draft.recover cause stop) := by
  cases ended : draft.atLineEnd with
  | true =>
      rw [recover, if_pos ended]
      exact writes_error cause ofLine draft
  | false =>
      rw [recover_of_not_atLineEnd ended]
      exact (writes_skip accepted stop draft).trans (writes_errorAt cause ofLine _ _)

theorem writer_separated_go {item : Draft → Draft} (writer : Writer dialect kinds item)
    (tokens : List Token) : Writer dialect kinds (separated.go item tokens) := by
  induction tokens with
  | nil => exact writer
  | cons token tokens ih =>
      intro draft plain
      have wrote := writer draft plain
      simp only [separated.go]
      split
      · exact (wrote.trans (writes_bump _)).andThen plain ih
      · exact wrote

theorem writer_separated {item : Draft → Draft} (writer : Writer dialect kinds item) :
    Writer dialect kinds (separated item) :=
  fun draft plain => writer_separated_go writer draft.rest draft plain

end Draft
end Asm6502
