import Asm6502.Proofs.DraftRules
import Asm6502.Proofs.WrittenTrees

/-!
# What a rule writes

A rule of the grammar takes tokens from a draft and adds trees to the innermost
open node, one behind the other, which cover just these tokens.  `Builds` says so
of a draft and the nodes that have been opened in it meanwhile; `Writes` says of a
rule that closes what it opens that all its trees are well formed.
-/

namespace Asm6502

/-- An open node of a draft with the trivia in front of it. -/
structure Frame where
  gap : List Token
  role : Role
  children : List Written

namespace Frame

def tokens (frame : Frame) : List Token :=
  frame.gap ++ Written.allTokens frame.children

/-- The tokens in front of and inside of open nodes, given innermost first. -/
def allTokens : List Frame → List Token
  | [] => []
  | frame :: outer => allTokens outer ++ frame.tokens

def openAll (sketch : Sketch Role) : List Frame → Sketch Role
  | [] => sketch
  | frame :: outer =>
      (((openAll sketch outer).addAll (frame.gap.map Draft.leaf)).enter frame.role).addAll
        (frame.children.map Written.tree)

end Frame

namespace Draft

theorem trivia_enter (role : Role) (draft : Draft) : (draft.enter role).trivia = [] := by
  have whole := (draft.enter role).trivia_append_upcoming
  rw [upcoming_enter] at whole
  change _ = draft.upcoming at whole
  simpa using whole

theorem textAt_of_upcoming {draft : Draft} {token : Token} {behind : List Token}
    (ahead : draft.upcoming = token :: behind) : draft.textAt 0 = token.text := by
  rw [textAt, tokenAt?_zero, ahead]
  rfl

/-- Since `base`, some nodes have been opened, given innermost first, and trees have
been added behind the last of them.  They cover the tokens that have been taken. -/
structure Builds (frames : List Frame) (current : List Written)
    (reports : List Diagnostic) (base draft : Draft) : Prop where
  rest : base.rest = Frame.allTokens frames ++ Written.allTokens current ++ draft.rest
  offset :
    draft.offset =
      base.offset +
        Token.totalLength (Frame.allTokens frames ++ Written.allTokens current)
  sketch :
    draft.sketch = (Frame.openAll base.sketch frames).addAll (current.map Written.tree)
  diagnostics : draft.diagnostics = reports ++ base.diagnostics

/-- The trees that have been added between two drafts with the same open nodes. -/
abbrev Wrote (trees : List Written) (reports : List Diagnostic) (before after : Draft) :
    Prop :=
  Builds [] trees reports before after

variable {frames : List Frame} {current trees : List Written}
  {reports more : List Diagnostic} {base draft after : Draft}

theorem builds_refl (draft : Draft) : Wrote [] [] draft draft where
  rest := rfl
  offset := rfl
  sketch := rfl
  diagnostics := rfl

theorem Builds.append (builds : Builds frames current reports base draft)
    (wrote : Wrote trees more draft after) :
    Builds frames (current ++ trees) (more ++ reports) base after where
  rest := by
    rw [builds.rest, wrote.rest]
    simp [Frame.allTokens]
  offset := by
    rw [wrote.offset, builds.offset]
    simp [Frame.allTokens, Nat.add_assoc]
  sketch := by
    rw [wrote.sketch, List.map_append, Sketch.addAll_append, ← builds.sketch]
    rfl
  diagnostics := by rw [wrote.diagnostics, builds.diagnostics, List.append_assoc]

theorem Builds.settle {gap : List Token} {role : Role} {children : List Written}
    (builds : Builds (⟨gap, role, children⟩ :: frames) current reports base draft) :
    Builds (⟨gap, role, children ++ current⟩ :: frames) [] reports base draft where
  rest := by
    rw [builds.rest]
    simp [Frame.allTokens, Frame.tokens, Written.allTokens]
  offset := by
    rw [builds.offset]
    simp [Frame.allTokens, Frame.tokens, Written.allTokens]
  sketch := by
    rw [builds.sketch]
    simp only [Frame.openAll, List.map_append, Sketch.addAll_append]
    rfl
  diagnostics := builds.diagnostics

theorem allTrees_leaves (tokens : List Token) :
    (tokens.map Written.leaf).map Written.tree = tokens.map leaf := by
  rw [List.map_map]
  rfl

theorem wrote_takeTrivia (draft : Draft) :
    Wrote (draft.trivia.map .leaf) [] draft draft.takeTrivia where
  rest := by simp [Frame.allTokens, takeTrivia]
  offset := by simp [Frame.allTokens, takeTrivia, nextStart]
  sketch := by
    rw [allTrees_leaves]
    rfl
  diagnostics := rfl

theorem Builds.enter (builds : Builds frames [] reports base draft) (role : Role) :
    Builds (⟨draft.trivia, role, []⟩ :: frames) [] reports base (draft.enter role) where
  rest := by
    rw [builds.rest, ← draft.trivia_append_upcoming]
    simp [Frame.allTokens, Frame.tokens, Written.allTokens, Draft.enter, takeTrivia]
  offset := by
    change draft.nextStart = _
    rw [nextStart, builds.offset]
    simp [Frame.allTokens, Frame.tokens, Written.allTokens, Nat.add_assoc]
  sketch := by
    change (draft.sketch.addAll (draft.trivia.map leaf)).enter role = _
    rw [builds.sketch]
    rfl
  diagnostics := builds.diagnostics

theorem Builds.wrap {gap : List Token} {operand : Written}
    (builds : Builds frames (gap.map .leaf ++ [operand]) reports base draft)
    (role : Role) :
    Builds (⟨gap, role, [operand]⟩ :: frames) [] reports base (draft.wrap role) where
  rest := by
    change base.rest = _ ++ draft.rest
    rw [builds.rest]
    simp [Frame.allTokens, Frame.tokens, Written.allTokens]
  offset := by
    change draft.offset = _
    rw [builds.offset]
    simp [Frame.allTokens, Frame.tokens, Written.allTokens]
  sketch := by
    change draft.sketch.wrap role = _
    rw [builds.sketch, List.map_append, Sketch.addAll_append, allTrees_leaves]
    exact Sketch.wrap_add _ _ _
  diagnostics := builds.diagnostics

theorem Builds.leave {gap : List Token} {role : Role} {children : List Written}
    (builds : Builds (⟨gap, role, children⟩ :: frames) current reports base draft)
    (nonempty : children ++ current ≠ []) (kind : Kind) :
    Builds frames (gap.map .leaf ++ [.node kind (children ++ current)]) reports base
      (draft.leave kind) where
  rest := by
    change base.rest = _ ++ draft.rest
    rw [builds.rest]
    simp [Frame.allTokens, Frame.tokens, Written.allTokens, Written.tokens_node]
  offset := by
    change draft.offset = _
    rw [builds.offset]
    simp [Frame.allTokens, Frame.tokens, Written.allTokens, Written.tokens_node]
  sketch := by
    have trees : (children ++ current).map Written.tree ≠ [] := by simpa using nonempty
    have closed := Sketch.leave_addAll_enter
      ((Frame.openAll base.sketch frames).addAll (gap.map leaf)) role trees kind
    change draft.sketch.leave kind = _
    rw [builds.settle.sketch, List.map_append, allTrees_leaves, Sketch.addAll_append,
      List.map_singleton, Written.tree_node]
    exact closed
  diagnostics := builds.diagnostics

theorem Builds.leave_nil {gap : List Token} {role : Role}
    (builds : Builds (⟨gap, role, []⟩ :: frames) [] reports base draft) (kind : Kind) :
    Builds frames (gap.map .leaf) reports base (draft.leave kind) where
  rest := by
    change base.rest = _ ++ draft.rest
    rw [builds.rest]
    simp [Frame.allTokens, Frame.tokens, Written.allTokens]
  offset := by
    change draft.offset = _
    rw [builds.offset]
    simp [Frame.allTokens, Frame.tokens, Written.allTokens]
  sketch := by
    change draft.sketch.leave kind = _
    rw [builds.sketch, allTrees_leaves]
    rfl
  diagnostics := builds.diagnostics

theorem tags_openAll (sketch : Sketch Role) (frames : List Frame) :
    (Frame.openAll sketch frames).tags = frames.map Frame.role ++ sketch.tags := by
  induction frames with
  | nil => rfl
  | cons frame outer ih => simp [Frame.openAll, ih]

theorem Builds.role (builds : Builds frames current reports base draft) :
    draft.role = ((frames.head?.map Frame.role).getD base.role) := by
  rw [role_eq, role_eq, builds.sketch, Sketch.tags_addAll, tags_openAll]
  cases frames <;> rfl

theorem wrote_bump {token : Token} {behind : List Token}
    (ahead : draft.upcoming = token :: behind) :
    Wrote (draft.trivia.map .leaf ++ [.leaf token]) [] draft draft.bump where
  rest := by
    rw [(took_bump ahead).rest]
    simp [Frame.allTokens, Written.allTokens, Written.tokens]
  offset := by
    rw [(took_bump ahead).offset]
    simp [Frame.allTokens, Written.allTokens, Written.tokens]
  sketch := by
    rw [bump_of_upcoming ahead, List.map_append, allTrees_leaves, Sketch.addAll_append]
    rfl
  diagnostics := by
    rw [bump_of_upcoming ahead]
    rfl

theorem Builds.bump {frame : Frame} {token : Token} {behind : List Token}
    (builds : Builds (frame :: frames) current reports base draft)
    (ahead : draft.upcoming = token :: behind) :
    Builds
      ({ frame with
          children := frame.children ++
            (current ++ (draft.trivia.map .leaf ++ [.leaf token])) } :: frames)
      [] reports base draft.bump :=
  (builds.append (wrote_bump ahead)).settle

theorem wrote_errorAt (cause : Cause) (span : Span) (draft : Draft) :
    Wrote [] [⟨cause.message, span⟩] draft (draft.errorAt cause span) where
  rest := rfl
  offset := rfl
  sketch := rfl
  diagnostics := rfl

theorem wrote_error (cause : Cause) (draft : Draft) :
    Wrote [] [⟨cause.message, draft.nextSpan⟩] draft (draft.error cause) :=
  wrote_errorAt cause draft.nextSpan draft

end Draft
end Asm6502
