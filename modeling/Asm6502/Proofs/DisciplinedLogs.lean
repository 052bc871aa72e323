import Asm6502.Proofs.BracketedLogs

/-!
# Disciplined logs

Operations are disciplined if always the innermost open node is finished, and nodes are
opened only around what was finished last.  Then the open nodes divide them into bracketed
parts, and when no node is open they are bracketed as a whole.
-/

namespace Asm6502
namespace Log

open Builder (Call Plan)

variable {operations chunk before : List Operation} {scaffold : Scaffold} {last? : Option Nat}
  {opened : List Nat} {plans : List Plan} {plan : Plan} {call : Nat} {kind : Kind}

/-- The open nodes and the one that was finished last behind the operation at a position,
if the operation is disciplined. -/
def accept (position : Nat) (operation : Operation) (opened : List Nat) (last? : Option Nat) :
    Option (List Nat × Option Nat) :=
  match operation with
  | .add _ => some (opened, none)
  | .start => some (position :: opened, none)
  | .complete marker kind =>
      if opened.head? = some marker ∧ kind ≠ .tombstone then some (opened.tail, some marker)
      else none
  | .precede completed =>
      if last? = some completed then some (position :: opened, none) else none

/-- The open nodes and the one that was finished last, if operations are disciplined. -/
def acceptAll (operations : List Operation) : Option (List Nat × Option Nat) :=
  Operation.carryOut
    (fun position operation state? => state?.bind fun (opened, last?) =>
      accept position operation opened last?)
    0 operations (some ([], none))

theorem acceptAll_concat (operations : List Operation) (operation : Operation) :
    acceptAll (operations ++ [operation]) =
      (acceptAll operations).bind fun (opened, last?) =>
        accept operations.length operation opened last? := by
  rw [acceptAll, Operation.carryOut_append, Nat.zero_add]
  rfl

theorem disciplined_iff :
    Disciplined operations opened last? ↔ acceptAll operations = some (opened, last?) := by
  constructor
  · intro disciplined
    induction disciplined with
    | nil => rfl
    | add _ ih => rw [acceptAll_concat, ih]; rfl
    | start _ ih => rw [acceptAll_concat, ih]; rfl
    | complete _ real ih =>
        rw [acceptAll_concat, ih]
        exact if_pos ⟨rfl, real⟩
    | precede _ ih =>
        rw [acceptAll_concat, ih]
        exact if_pos rfl
  · intro accepted
    induction operations using List.reverseRecOn generalizing opened last? with
    | nil =>
        obtain ⟨rfl, rfl⟩ := Prod.mk.inj (Option.some_inj.mp accepted)
        exact .nil
    | append_singleton before operation ih =>
        rw [acceptAll_concat] at accepted
        obtain ⟨⟨earlier, earlier?⟩, state, step⟩ := Option.bind_eq_some_iff.mp accepted
        have disciplined := ih state
        cases operation with
        | add tree =>
            obtain ⟨rfl, rfl⟩ := Prod.mk.inj (Option.some_inj.mp step)
            exact .add disciplined
        | start =>
            obtain ⟨rfl, rfl⟩ := Prod.mk.inj (Option.some_inj.mp step)
            exact .start disciplined
        | complete marker kind =>
            obtain ⟨⟨innermost, real⟩, next⟩ := Option.ite_none_right_eq_some.mp step
            obtain ⟨rfl, rfl⟩ := Prod.mk.inj (Option.some_inj.mp next)
            obtain ⟨outer, rfl⟩ := List.head?_eq_some_iff.mp innermost
            exact .complete disciplined real
        | precede completed =>
            obtain ⟨rfl, next⟩ := Option.ite_none_right_eq_some.mp step
            obtain ⟨rfl, rfl⟩ := Prod.mk.inj (Option.some_inj.mp next)
            exact .precede disciplined

instance (operations : List Operation) (opened : List Nat) (last? : Option Nat) :
    Decidable (Disciplined operations opened last?) :=
  decidable_of_iff _ disciplined_iff.symm

/-- What was built last is the node that was finished last. -/
def EndsWith (plans : List Plan) (last? : Option Nat) : Prop :=
  ∀ call ∈ last?, ∃ kind children earlier, plans = .node call kind children :: earlier

theorem endsWith_none (plans : List Plan) : EndsWith plans none := by
  simp [EndsWith]

theorem endsWith_node (call : Nat) (kind : Kind) (children earlier : List Plan) :
    EndsWith (.node call kind children :: earlier) (some call) := by
  rintro _ ⟨⟩
  exact ⟨kind, children, earlier, rfl⟩

/-- Operations have built a scaffold: those behind the start of an open node are bracketed,
and what they build are its children, behind the one that it was opened around. -/
inductive Builds : List Operation → Scaffold → (last? : Option Nat) → Prop
  | settled {operations : List Operation} {plans : List Plan} {last? : Option Nat} :
      Assembles 0 operations plans → EndsWith plans last? → Builds operations ⟨plans, []⟩ last?
  | opened {before inner : List Operation} {settled children : List Plan}
      {outer : List (Nat × List Plan)} {earlier? last? : Option Nat} :
      Builds before ⟨settled, outer⟩ earlier? → Assembles (before.length + 1) inner children →
        EndsWith children last? →
          Builds (before ++ .start :: inner) ⟨settled, (before.length, children) :: outer⟩ last?
  | around {before inner : List Operation} {settled parts children : List Plan}
      {outer : List (Nat × List Plan)} {call : Nat} {kind : Kind} {last? : Option Nat} :
      Builds before (.add (.node call kind parts) ⟨settled, outer⟩) (some call) →
        Assembles (before.length + 1) inner children → EndsWith children last? →
          Builds (before ++ .precede call :: inner)
            ⟨settled, (before.length, children ++ [.node call kind parts]) :: outer⟩ last?

theorem length_behind (before inner : List Operation) (operation : Operation) :
    before.length + 1 + inner.length = (before ++ operation :: inner).length := by
  rw [List.length_append, List.length_cons]
  omega

/-- Operations that add a plan wherever they stand behind bracketed ones. -/
def Adds (before chunk : List Operation) (plan : Plan) : Prop :=
  ∀ base operations earlier, base + operations.length = before.length →
    Assembles base operations earlier → Assembles base (operations ++ chunk) (plan :: earlier)

theorem Builds.add (builds : Builds before scaffold last?) (adds : Adds before chunk plan)
    {next? : Option Nat} (ends : ∀ earlier, EndsWith (plan :: earlier) next?) :
    Builds (before ++ chunk) (scaffold.add plan) next? := by
  cases builds with
  | settled assembles _ =>
      exact .settled (adds 0 _ _ (Nat.zero_add _) assembles) (ends _)
  | opened outer inner _ =>
      rw [List.append_assoc, List.cons_append]
      exact .opened outer (adds _ _ _ (length_behind ..) inner) (ends _)
  | around outer inner _ =>
      rw [List.append_assoc, List.cons_append]
      exact .around outer (adds _ _ _ (length_behind ..) inner) (ends _)

/-- Operations that put a plan in the place of the one that was built last. -/
def Replaces (before chunk : List Operation) (first plan : Plan) : Prop :=
  ∀ base operations earlier, base + operations.length = before.length →
    Assembles base operations (first :: earlier) →
      Assembles base (operations ++ chunk) (plan :: earlier)

theorem Builds.replace {parts : List Plan}
    (builds : Builds before (scaffold.add (.node call kind parts)) (some call))
    (replaces : Replaces before chunk (.node call kind parts) plan) {next? : Option Nat}
    (ends : ∀ earlier, EndsWith (plan :: earlier) next?) :
    Builds (before ++ chunk) (scaffold.add plan) next? := by
  obtain ⟨settled, _ | ⟨⟨outerCall, children⟩, outer⟩⟩ := scaffold
  · cases builds with
    | settled assembles _ =>
        exact .settled (replaces 0 _ _ (Nat.zero_add _) assembles) (ends _)
  · generalize whole :
      Scaffold.add (.node call kind parts) ⟨settled, (outerCall, children) :: outer⟩ = built
      at builds
    cases builds with
    | settled => simp [Scaffold.add] at whole
    | opened around inner _ =>
        obtain ⟨rfl, ⟨rfl, rfl⟩, rfl⟩ := by simpa [Scaffold.add] using whole
        rw [List.append_assoc, List.cons_append]
        exact .opened around (replaces _ _ _ (length_behind ..) inner) (ends _)
    | around around inner ending =>
        -- Something has been built behind the first child, so that is not replaced.
        obtain ⟨_, _, earlier, rfl⟩ := ending call rfl
        obtain ⟨rfl, ⟨rfl, ⟨rfl, rfl⟩, rfl⟩, rfl⟩ := by simpa [Scaffold.add] using whole
        rw [List.append_assoc, List.cons_append]
        exact .around around (replaces _ _ _ (length_behind ..) inner) (ends _)

theorem Builds.exists_add (builds : Builds before scaffold (some call)) :
    ∃ (outer : Scaffold) (kind : Kind) (parts : List Plan),
      scaffold = outer.add (.node call kind parts) := by
  cases builds with
  | settled _ ending =>
      obtain ⟨kind, parts, earlier, rfl⟩ := ending call rfl
      exact ⟨⟨earlier, []⟩, kind, parts, rfl⟩
  | opened _ _ ending =>
      obtain ⟨kind, parts, earlier, rfl⟩ := ending call rfl
      exact ⟨⟨_, (_, earlier) :: _⟩, kind, parts, rfl⟩
  | around _ _ ending =>
      obtain ⟨kind, parts, earlier, rfl⟩ := ending call rfl
      exact ⟨⟨_, (_, earlier ++ [_]) :: _⟩, kind, parts, rfl⟩

theorem Builds.complete {marker : Nat} {markers : List Nat}
    (builds : Builds operations scaffold last?)
    (innermost : scaffold.markers = marker :: markers) (real : kind ≠ .tombstone) :
    Builds (operations ++ [.complete marker kind]) (scaffold.close kind) (some marker) := by
  cases builds with
  | settled => contradiction
  | @opened before inner settled children outer _ _ around assembles _ =>
      obtain ⟨rfl, -⟩ := List.cons.inj innermost
      rw [List.append_assoc, List.cons_append]
      refine around.add (fun base operations earlier lengthEq built => ?_) (endsWith_node _ _ _)
      rw [← lengthEq] at assembles ⊢
      exact .node built assembles real
  | @around before inner settled parts children outer call firstKind _ around assembles _ =>
      obtain ⟨rfl, -⟩ := List.cons.inj innermost
      have closed : Scaffold.close kind
          ⟨settled, (before.length, children ++ [.node call firstKind parts]) :: outer⟩ =
            Scaffold.add (.node before.length kind
              (.node call firstKind parts :: children.reverse)) ⟨settled, outer⟩ := by
        simp [Scaffold.close]
      rw [List.append_assoc, List.cons_append, closed]
      refine around.replace (fun base operations earlier lengthEq built => ?_)
        (endsWith_node _ _ _)
      rw [← lengthEq] at assembles ⊢
      exact .around built assembles real

theorem Disciplined.builds (disciplined : Disciplined operations opened last?) :
    Builds operations (.ofOperations operations) last? ∧
      (Scaffold.ofOperations operations).markers = opened := by
  induction disciplined with
  | nil => exact ⟨.settled .nil (endsWith_none _), rfl⟩
  | @add operations _ _ tree _ ih =>
      obtain ⟨builds, markers⟩ := ih
      rw [Scaffold.ofOperations_concat, Scaffold.perform, Scaffold.markers_add]
      refine ⟨builds.add (fun base before earlier lengthEq built => ?_)
        fun _ => endsWith_none _, markers⟩
      rw [← lengthEq]
      exact .add built
  | start _ ih =>
      obtain ⟨builds, markers⟩ := ih
      rw [Scaffold.ofOperations_concat, Scaffold.perform, Scaffold.markers_enter, markers]
      exact ⟨.opened builds .nil (endsWith_none _), rfl⟩
  | complete _ real ih =>
      obtain ⟨builds, markers⟩ := ih
      rw [Scaffold.ofOperations_concat, Scaffold.perform, Scaffold.markers_close, markers]
      exact ⟨builds.complete markers real, rfl⟩
  | @precede operations _ completed _ ih =>
      obtain ⟨builds, markers⟩ := ih
      rw [Scaffold.ofOperations_concat, Scaffold.perform, Scaffold.markers_wrap, markers]
      obtain ⟨outer, kind, parts, split⟩ := builds.exists_add
      rw [split] at builds ⊢
      rw [Scaffold.wrap_add]
      exact ⟨.around builds .nil (endsWith_none _), rfl⟩

/-- Positions stay what they are in 32 bits, if that is enough for the length of the log. -/
theorem Disciplined.map_narrowed (disciplined : Disciplined operations opened last?)
    (short : operations.length ≤ 4294967296) :
    operations.map Operation.narrowed = operations ∧
      (∀ marker ∈ opened, marker < 4294967296) ∧ ∀ completed ∈ last?, completed < 4294967296 := by
  induction disciplined with
  | nil => simp
  | add _ ih =>
      obtain ⟨same, markers, -⟩ := ih (by simp at short; omega)
      exact ⟨by rw [List.map_append, same]; rfl, markers, by simp⟩
  | start _ ih =>
      obtain ⟨same, markers, -⟩ := ih (by simp at short; omega)
      refine ⟨by rw [List.map_append, same]; rfl, List.forall_mem_cons.mpr ⟨?_, markers⟩, by simp⟩
      simp at short
      omega
  | @complete before _ _ marker kind _ _ ih =>
      obtain ⟨same, markers, -⟩ := ih (by simp at short; omega)
      obtain ⟨here, outer⟩ := List.forall_mem_cons.mp markers
      refine ⟨?_, outer, by simpa using here⟩
      rw [List.map_append, same, List.map_singleton, Operation.narrowed, Nat.mod_eq_of_lt here]
  | @precede before _ completed _ ih =>
      obtain ⟨same, markers, latest⟩ := ih (by simp at short; omega)
      refine ⟨?_, List.forall_mem_cons.mpr ⟨?_, markers⟩, by simp⟩
      · rw [List.map_append, same, List.map_singleton, Operation.narrowed,
          Nat.mod_eq_of_lt (latest completed rfl)]
      · simp at short
        omega

/-- Bracketed operations are disciplined wherever they stand, and a node that they have
finished last is known as such. -/
theorem Assembles.disciplined {base : Nat} (assembles : Assembles base operations plans)
    {front : List Operation} (lengthEq : front.length = base)
    (disciplined : Disciplined front opened last?) :
    ∃ next?, Disciplined (front ++ operations) opened next? ∧
      ∀ call kind children earlier, plans = .node call kind children :: earlier →
        next? = some call := by
  induction assembles generalizing front opened last? with
  | nil => exact ⟨last?, by simpa using disciplined, by simp⟩
  | add _ ih =>
      obtain ⟨_, before, -⟩ := ih lengthEq disciplined
      refine ⟨none, ?_, by simp⟩
      rw [← List.append_assoc]
      exact .add before
  | @node base before inner _ _ kind _ _ real beforeIH innerIH =>
      obtain ⟨_, outside, -⟩ := beforeIH lengthEq disciplined
      have marker : (front ++ before).length = base + before.length := by
        rw [List.length_append, lengthEq]
      obtain ⟨_, inside, -⟩ := innerIH (by simp [lengthEq]; omega) outside.start
      rw [marker] at inside
      refine ⟨_, by simpa using inside.complete real, ?_⟩
      rintro _ _ _ _ ⟨⟩
      rfl
  | @around base call before inner _ kind _ _ _ _ _ real beforeIH innerIH =>
      obtain ⟨_, outside, latest⟩ := beforeIH lengthEq disciplined
      obtain rfl := latest _ _ _ _ rfl
      have marker : (front ++ before).length = base + before.length := by
        rw [List.length_append, lengthEq]
      obtain ⟨_, inside, -⟩ := innerIH (by simp [lengthEq]; omega) outside.precede
      rw [marker] at inside
      refine ⟨_, by simpa using inside.complete real, ?_⟩
      rintro _ _ _ _ ⟨⟩
      rfl

/-- Disciplined operations that have finished every node are bracketed. -/
theorem Disciplined.assembles (disciplined : Disciplined operations [] last?) :
    ∃ plans, Scaffold.ofOperations operations = ⟨plans, []⟩ ∧ Assembles 0 operations plans := by
  obtain ⟨builds, markers⟩ := disciplined.builds
  generalize Scaffold.ofOperations operations = scaffold at builds markers
  cases builds with
  | settled assembles _ => exact ⟨_, rfl, assembles⟩
  | opened => contradiction
  | around => contradiction

end Log
end Asm6502
