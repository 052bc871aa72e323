import Asm6502.Diagnostic

/-!
# The order of diagnostics

Ordering diagnostics is stable: those that start at one offset keep their order.
An ordered list is settled by what starts at each offset, so two reports with
the same diagnostics at each offset are ordered alike.
-/

namespace Asm6502
namespace Diagnostic

/-- The diagnostics that start at an offset, as they were reported. -/
def startingAt (start : Nat) (diagnostics : List Diagnostic) : List Diagnostic :=
  diagnostics.filter fun diagnostic => diagnostic.start == start

/-- Two reports agree on what starts at each offset. -/
def Agree (first second : List Diagnostic) : Prop :=
  ∀ start, startingAt start first = startingAt start second

/-- Later diagnostics do not start earlier. -/
def Ordered (diagnostics : List Diagnostic) : Prop :=
  diagnostics.Pairwise fun earlier later => earlier.start ≤ later.start

theorem mem_insert {diagnostic other : Diagnostic} {diagnostics : List Diagnostic} :
    other ∈ insert diagnostic diagnostics ↔
      other = diagnostic ∨ other ∈ diagnostics := by
  induction diagnostics with
  | nil => simp [insert]
  | cons first rest ih =>
      rw [insert]
      split
      · simp
      · rw [List.mem_cons, ih, List.mem_cons]
        exact or_left_comm

theorem mem_inOrder {diagnostic : Diagnostic} {diagnostics : List Diagnostic} :
    diagnostic ∈ inOrder diagnostics ↔ diagnostic ∈ diagnostics := by
  induction diagnostics with
  | nil => rfl
  | cons first rest ih =>
      rw [inOrder, List.foldr_cons, mem_insert, List.mem_cons]
      exact or_congr_right ih

theorem ordered_insert {diagnostic : Diagnostic} {diagnostics : List Diagnostic}
    (ordered : Ordered diagnostics) : Ordered (insert diagnostic diagnostics) := by
  induction diagnostics with
  | nil => simp [insert, Ordered]
  | cons first rest ih =>
      obtain ⟨firstLeast, restOrdered⟩ := List.pairwise_cons.mp ordered
      rw [insert]
      split
      · next least =>
          refine List.pairwise_cons.mpr ⟨?_, ordered⟩
          intro other member
          rcases List.mem_cons.mp member with rfl | inRest
          · exact least
          · exact Nat.le_trans least (firstLeast other inRest)
      · next notLeast =>
          refine List.pairwise_cons.mpr ⟨?_, ih restOrdered⟩
          intro other member
          rcases mem_insert.mp member with rfl | inRest
          · omega
          · exact firstLeast other inRest

theorem ordered_inOrder (diagnostics : List Diagnostic) :
    Ordered (inOrder diagnostics) := by
  induction diagnostics with
  | nil => exact List.Pairwise.nil
  | cons first rest ih => exact ordered_insert ih

theorem startingAt_insert (start : Nat) (diagnostic : Diagnostic)
    (diagnostics : List Diagnostic) :
    startingAt start (insert diagnostic diagnostics) =
      startingAt start (diagnostic :: diagnostics) := by
  unfold startingAt
  induction diagnostics with
  | nil => rfl
  | cons first rest ih =>
      rw [insert]
      split
      · rfl
      · next later =>
          rw [List.filter_cons, ih]
          simp only [List.filter_cons, beq_iff_eq]
          split <;> split <;> first | rfl | omega

theorem agree_inOrder (diagnostics : List Diagnostic) :
    Agree (inOrder diagnostics) diagnostics := by
  intro start
  induction diagnostics with
  | nil => rfl
  | cons first rest ih =>
      rw [inOrder, List.foldr_cons, startingAt_insert]
      unfold startingAt at ih ⊢
      rw [List.filter_cons, List.filter_cons]
      split
      · exact congrArg _ ih
      · exact ih

theorem Agree.symm {first second : List Diagnostic} (agree : Agree first second) :
    Agree second first :=
  fun start => (agree start).symm

theorem Agree.trans {first second third : List Diagnostic}
    (agree : Agree first second) (next : Agree second third) : Agree first third :=
  fun start => (agree start).trans (next start)

theorem Agree.append {first second more others : List Diagnostic}
    (agree : Agree first second) (next : Agree more others) :
    Agree (first ++ more) (second ++ others) := by
  intro start
  rw [startingAt, List.filter_append]
  rw [startingAt, List.filter_append]
  exact congr (congrArg _ (agree start)) (next start)

theorem Agree.filter {first second : List Diagnostic} (agree : Agree first second)
    (keeps : Diagnostic → Bool) :
    Agree (first.filter keeps) (second.filter keeps) := by
  have swap (diagnostics : List Diagnostic) (start : Nat) :
      startingAt start (diagnostics.filter keeps) =
        (startingAt start diagnostics).filter keeps := by
    rw [startingAt, startingAt, List.filter_filter, List.filter_filter]
    congr 1
    funext diagnostic
    exact Bool.and_comm _ _
  intro start
  rw [swap, swap, agree start]

theorem mem_of_agree {first second : List Diagnostic} (agree : Agree first second)
    {diagnostic : Diagnostic} (member : diagnostic ∈ first) : diagnostic ∈ second := by
  have here : diagnostic ∈ startingAt diagnostic.start first :=
    List.mem_filter.mpr ⟨member, by simp⟩
  rw [agree diagnostic.start] at here
  exact (List.mem_filter.mp here).1

/-- An ordered list is settled by what starts at each offset. -/
theorem eq_of_agree {first second : List Diagnostic} (firstOrdered : Ordered first)
    (secondOrdered : Ordered second) (agree : Agree first second) : first = second := by
  induction first generalizing second with
  | nil =>
      cases second with
      | nil => rfl
      | cons other others =>
          have otherIn : other ∈ [] := mem_of_agree agree.symm List.mem_cons_self
          contradiction
  | cons head rest ih =>
      cases second with
      | nil =>
          have headIn : head ∈ [] := mem_of_agree agree List.mem_cons_self
          contradiction
      | cons other others =>
          obtain ⟨headLeast, restOrdered⟩ := List.pairwise_cons.mp firstOrdered
          obtain ⟨otherLeast, othersOrdered⟩ := List.pairwise_cons.mp secondOrdered
          -- Both heads are the least of the same reports, so they start at one offset.
          have sameStart : head.start = other.start := by
            have headIn : head ∈ other :: others :=
              mem_of_agree agree List.mem_cons_self
            have otherIn : other ∈ head :: rest :=
              mem_of_agree agree.symm List.mem_cons_self
            apply Nat.le_antisymm
            · rcases List.mem_cons.mp otherIn with rfl | later
              · exact Nat.le_refl _
              · exact headLeast other later
            · rcases List.mem_cons.mp headIn with rfl | later
              · exact Nat.le_refl _
              · exact otherLeast head later
          have atHead := agree head.start
          simp only [startingAt, List.filter_cons, beq_self_eq_true, if_true,
            sameStart] at atHead
          obtain ⟨rfl, -⟩ := List.cons.inj atHead
          congr 1
          apply ih restOrdered othersOrdered
          intro start
          have here := agree start
          simp only [startingAt, List.filter_cons] at here ⊢
          split at here
          · exact (List.cons.inj here).2
          · exact here

theorem inOrder_congr {first second : List Diagnostic} (agree : Agree first second) :
    inOrder first = inOrder second :=
  eq_of_agree (ordered_inOrder _) (ordered_inOrder _)
    ((agree_inOrder first).trans (agree.trans (agree_inOrder second).symm))

/-- Choosing among ordered diagnostics is the same as ordering the chosen
ones. -/
theorem filter_inOrder (keeps : Diagnostic → Bool) (diagnostics : List Diagnostic) :
    (inOrder diagnostics).filter keeps = inOrder (diagnostics.filter keeps) :=
  eq_of_agree ((ordered_inOrder _).filter _) (ordered_inOrder _)
    (((agree_inOrder diagnostics).filter keeps).trans (agree_inOrder _).symm)

theorem map_shift_insert (amount : Nat) (diagnostic : Diagnostic)
    (diagnostics : List Diagnostic) :
    (insert diagnostic diagnostics).map (shift amount) =
      insert (diagnostic.shift amount) (diagnostics.map (shift amount)) := by
  induction diagnostics with
  | nil => rfl
  | cons first rest ih =>
      simp only [insert, List.map_cons]
      have sameTest : (diagnostic.shift amount).start ≤ (first.shift amount).start ↔
          diagnostic.start ≤ first.start :=
        Nat.add_le_add_iff_right
      by_cases least : diagnostic.start ≤ first.start
      · rw [if_pos least, if_pos (sameTest.mpr least)]
        rfl
      · rw [if_neg least, if_neg (mt sameTest.mp least), List.map_cons, ih]

theorem map_shift_inOrder (amount : Nat) (diagnostics : List Diagnostic) :
    (inOrder diagnostics).map (shift amount) =
      inOrder (diagnostics.map (shift amount)) := by
  induction diagnostics with
  | nil => rfl
  | cons first rest ih =>
      rw [inOrder, List.foldr_cons, map_shift_insert]
      rw [inOrder] at ih
      rw [ih]
      rfl

end Diagnostic
end Asm6502
