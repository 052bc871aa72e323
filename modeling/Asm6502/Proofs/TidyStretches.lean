import Asm6502.Line
import Asm6502.Proofs.Stretches
import Asm6502.Proofs.TreeShape

/-!
# Tidy stretches

Inside of a line a node never ends with trivia, since they are only taken in front of what
follows.  So a builder leaves the trivia of a line where a sketch has them.  The trivia in
front of the line itself go into it, although they come before its start.
-/

namespace Asm6502

theorem Kind.IsInline.ne_tombstone {kind : Kind} (isInline : kind.IsInline) :
    kind ≠ .tombstone := by
  rintro rfl
  exact absurd isInline (by decide)

namespace Log.Stretch

open Builder (leaves)

variable {stretch : Stretch} {stretches more parts : List Stretch} {held : List (Kind × Nat)}

def isTrivia : Stretch → Bool
  | .leaf (.token kind _) => kind.isTrivia
  | _ => false

theorem isTrivia_of_isNode (isNode : stretch.isNode = true) : stretch.isTrivia = false := by
  cases stretch with
  | leaf => contradiction
  | node | around => rfl

/-- No trivia stand at the end. -/
def EndFirmly (stretches : List Stretch) : Prop :=
  ∀ last ∈ stretches.getLast?, last.isTrivia = false

theorem EndFirmly.tail (firm : EndFirmly (stretch :: stretches)) : EndFirmly stretches := by
  intro last found
  apply firm last
  cases stretches with
  | nil => contradiction
  | cons next rest => rwa [List.getLast?_cons_cons]

theorem EndFirmly.append (first : EndFirmly stretches) (second : EndFirmly more) :
    EndFirmly (stretches ++ more) := by
  cases more with
  | nil => simpa using first
  | cons stretch rest =>
      intro last found
      rw [List.getLast?_append_of_ne_nil _ (List.cons_ne_nil _ _)] at found
      exact second last found

theorem endFirmly_concat {last : Stretch} (significant : last.isTrivia = false) :
    EndFirmly (stretches ++ [last]) := by
  simpa [EndFirmly] using significant

/-- A node inside of a line does not absorb trivia, and no trivia stand at its end. -/
inductive Tidy : Stretch → Prop
  | leaf {tree : Tree} : Tidy (.leaf tree)
  | node {kind : Kind} {parts : List Stretch} :
      kind.IsInline → (∀ part ∈ parts, Tidy part) → EndFirmly parts → Tidy (.node kind parts)
  | around {kind : Kind} {first : Stretch} {parts : List Stretch} :
      kind.IsInline → first.isNode = true → Tidy first → (∀ part ∈ parts, Tidy part) →
        EndFirmly parts → Tidy (.around kind first parts)

theorem Tidy.sound (tidy : stretch.Tidy) : stretch.Sound := by
  induction tidy with
  | leaf => exact .leaf
  | node isInline _ _ ih => exact .node isInline.ne_tombstone ih
  | around isInline isNode _ _ _ firstIH ih => exact .around isInline.ne_tombstone isNode firstIH ih

theorem leaves_append (first second : List (Kind × Nat)) :
    leaves (first ++ second) = leaves first ++ leaves second :=
  List.map_append

/-- Something that is not trivia has the trivia in front of it, and leaves none behind. -/
def Settles (stretch : Stretch) : Prop :=
  stretch.isTrivia = false → ∀ held, stretch.placed held = (leaves held ++ stretch.kept, [])

theorem placed_of_isTrivia (isTrivia : stretch.isTrivia = true) (held : List (Kind × Nat)) :
    ∃ kind length, stretch.placed held = ([], held ++ [(kind, length)]) ∧
      stretch.kept = leaves [(kind, length)] := by
  unfold Stretch.isTrivia at isTrivia
  split at isTrivia
  · next kind length =>
      refine ⟨kind, length, ?_, rfl⟩
      rw [placed, Builder.Placement.leaf, if_pos isTrivia]
  · contradiction

theorem placedAll_of_settles (each : ∀ part ∈ parts, part.Settles) (held : List (Kind × Nat)) :
    (placedAll parts held).1 ++ leaves (placedAll parts held).2 =
        leaves held ++ keptOfAll parts ∧
      (EndFirmly parts → parts ≠ [] → (placedAll parts held).2 = []) := by
  induction parts generalizing held with
  | nil => simp [placedAll, keptOfAll, Builder.Placement.nothing]
  | cons part rest ih =>
      obtain ⟨here, behind⟩ := List.forall_mem_cons.mp each
      cases isTrivia : part.isTrivia with
      | true =>
          obtain ⟨kind, length, placed, kept⟩ := placed_of_isTrivia isTrivia held
          obtain ⟨same, firmly⟩ := ih behind (held ++ [(kind, length)])
          rw [placedAll, keptOfAll, Builder.Placement.andThen, placed, kept]
          refine ⟨?_, fun firm _ => firmly firm.tail ?_⟩
          · simpa [leaves_append] using same
          · rintro rfl
            simp [EndFirmly, isTrivia] at firm
      | false =>
          obtain ⟨same, firmly⟩ := ih behind []
          rw [placedAll, keptOfAll, Builder.Placement.andThen, here isTrivia]
          refine ⟨?_, fun firm _ => ?_⟩
          · simpa [leaves] using same
          · cases rest with
            | nil => rfl
            | cons next others => exact firmly firm.tail (List.cons_ne_nil _ _)

theorem placedAll_nil (each : ∀ part ∈ parts, part.Settles) (firm : EndFirmly parts) :
    placedAll parts [] = (keptOfAll parts, []) := by
  obtain ⟨same, firmly⟩ := placedAll_of_settles each []
  have none : (placedAll parts []).2 = [] := by
    cases parts with
    | nil => rfl
    | cons part rest => exact firmly firm (List.cons_ne_nil _ _)
  rw [none] at same
  exact Prod.ext (by simpa [leaves] using same) none

theorem Tidy.settles (tidy : stretch.Tidy) : stretch.Settles := by
  induction tidy with
  | @leaf tree =>
      intro notTrivia held
      cases tree with
      | token kind length =>
          have significant : kind.isTrivia = false := notTrivia
          rw [placed, Builder.Placement.leaf, if_neg (by simp [significant])]
          rfl
      | node kind children => rfl
  | @node kind parts isInline _ firm ih =>
      intro _ held
      rw [placed, Builder.Placement.node_of_not_absorbs isInline.2, placedAll_nil ih firm, kept]
  | @around kind first parts isInline isNode _ _ firm firstIH ih =>
      intro _ held
      rw [placed, Builder.Placement.node_of_not_absorbs isInline.2, Builder.Placement.andThen,
        firstIH (isTrivia_of_isNode isNode)]
      simp only [leaves, List.map_nil, List.nil_append, placedAll_nil ih firm, kept]

theorem placedAll_of_isTrivia (trivia : ∀ part ∈ parts, part.isTrivia = true)
    (held : List (Kind × Nat)) :
    ∃ more, placedAll parts held = ([], more) ∧ leaves more = leaves held ++ keptOfAll parts := by
  induction parts generalizing held with
  | nil => exact ⟨held, rfl, by simp [keptOfAll]⟩
  | cons part rest ih =>
      obtain ⟨here, behind⟩ := List.forall_mem_cons.mp trivia
      obtain ⟨kind, length, placed, kept⟩ := placed_of_isTrivia here held
      obtain ⟨more, rests, same⟩ := ih behind (held ++ [(kind, length)])
      refine ⟨more, ?_, ?_⟩
      · rw [placedAll, Builder.Placement.andThen, placed]
        simp only [rests, List.append_nil]
      · rw [same, leaves_append, keptOfAll, kept, List.append_assoc]

/-- A line takes in the trivia in front of it, and all others. -/
theorem placed_line (tidy : ∀ stretch ∈ stretches, stretch.Tidy) :
    ∃ held, placedAll (stretches.takeWhile isTrivia) [] = ([], held) ∧
      placed (.node .line (stretches.dropWhile isTrivia)) held =
        (Tree.around .line (keptOfAll stretches), []) := by
  have trivia : ∀ part ∈ stretches.takeWhile isTrivia, part.isTrivia = true :=
    fun part member => List.all_eq_true.mp List.all_takeWhile part member
  have settle : ∀ part ∈ stretches.dropWhile isTrivia, part.Settles :=
    fun part member => (tidy part ((List.dropWhile_sublist _).subset member)).settles
  obtain ⟨held, front, heldEq⟩ := placedAll_of_isTrivia trivia []
  have inside := (placedAll_of_settles settle held).1
  refine ⟨held, front, ?_⟩
  rw [placed, Builder.Placement.node_of_absorbs rfl, inside, heldEq, leaves, List.map_nil,
    List.nil_append, ← keptOfAll_append, List.takeWhile_append_dropWhile]

theorem steps_of_isTrivia (isTrivia : stretch.isTrivia = true) :
    ∃ step, stretch.steps = [step] ∧ step.addsTrivia = true := by
  unfold Stretch.isTrivia at isTrivia
  split at isTrivia
  · exact ⟨_, rfl, isTrivia⟩
  · contradiction

theorem Tidy.exists_steps (tidy : stretch.Tidy) (notTrivia : stretch.isTrivia = false) :
    ∃ first rest, stretch.steps = first :: rest ∧ first.addsTrivia = false := by
  induction tidy with
  | @leaf tree =>
      refine ⟨_, _, rfl, ?_⟩
      cases tree with
      | token => exact notTrivia
      | node => rfl
  | node => exact ⟨_, _, rfl, rfl⟩
  | @around kind first parts _ isNode _ _ _ firstIH _ =>
      obtain ⟨step, rest, steps, significant⟩ := firstIH (isTrivia_of_isNode isNode)
      exact ⟨step, _, by rw [Stretch.steps, steps, List.cons_append], significant⟩

theorem stepsOfAll_split (tidy : ∀ stretch ∈ stretches, stretch.Tidy) :
    stepsOfAll (stretches.takeWhile isTrivia) =
        (stepsOfAll stretches).takeWhile Step.addsTrivia ∧
      stepsOfAll (stretches.dropWhile isTrivia) =
        (stepsOfAll stretches).dropWhile Step.addsTrivia := by
  induction stretches with
  | nil => exact ⟨rfl, rfl⟩
  | cons stretch rest ih =>
      obtain ⟨here, behind⟩ := List.forall_mem_cons.mp tidy
      rw [stepsOfAll]
      cases isTrivia : stretch.isTrivia with
      | true =>
          obtain ⟨step, steps, trivial⟩ := steps_of_isTrivia isTrivia
          obtain ⟨front, back⟩ := ih behind
          rw [steps, List.takeWhile_cons_of_pos isTrivia, List.dropWhile_cons_of_pos isTrivia,
            stepsOfAll, steps, front, back]
          simp [trivial]
      | false =>
          obtain ⟨first, more, steps, significant⟩ := here.exists_steps isTrivia
          simp [isTrivia, steps, significant, stepsOfAll]

theorem stepsOfAll_line (tidy : ∀ stretch ∈ stretches, stretch.Tidy) :
    stepsOfAll (stretches.takeWhile isTrivia ++ [.node .line (stretches.dropWhile isTrivia)]) =
      Line.enclose (stepsOfAll stretches) := by
  obtain ⟨front, back⟩ := stepsOfAll_split tidy
  rw [stepsOfAll_append, front, stepsOfAll, Stretch.steps, back, Line.enclose, stepsOfAll,
    List.append_nil]

end Log.Stretch
end Asm6502
