import Asm6502.Proofs.BalancedCalls
import Asm6502.Proofs.DisciplinedLogs

/-!
# Resolved logs

Disciplined operations that finish every node build trees directly: a node is opened in
the innermost open one, or around the child that was added last.  Their log says the same.
Taking it down and resolving it never fails, and the calls that come of it are those of
the trees, inside of a source file.
-/

namespace Asm6502

open Builder (Call Part Plan)

namespace Builder.Plan

theorem mem_parts_node_iff {call : Nat} {kind : Kind} {children : List Plan} {above : List Nat}
    {part : Part} :
    part ∈ parts above (.node call kind children) ↔
      part = .node call kind above ∨ ∃ child ∈ children, part ∈ child.parts (call :: above) := by
  rw [parts, partsOfAll_eq_flatMap, List.mem_cons, List.mem_flatMap]

theorem starts_eq (plan : Plan) (above : List Nat) :
    (plan.parts above).filterMap Part.start? = plan.starts := by
  rw [starts]
  generalize ([] : List Nat) = other
  induction plan using Plan.induct generalizing above other with
  | leaf call tree => rfl
  | node call kind children ih =>
      simp only [parts, partsOfAll_eq_flatMap, List.filterMap_cons, Part.start?,
        List.filterMap_flatMap]
      congr 1
      exact List.flatMap_congr fun child member => ih child member _ _

theorem starts_leaf (call : Nat) (tree : Tree) : starts (.leaf call tree) = [] :=
  rfl

theorem starts_node (call : Nat) (kind : Kind) (children : List Plan) :
    starts (.node call kind children) = call :: children.flatMap starts := by
  rw [starts, parts, partsOfAll_eq_flatMap, List.filterMap_cons, List.filterMap_flatMap]
  simp only [starts_eq]
  rfl

theorem countP_isToken_node (call : Nat) (kind : Kind) (children : List Plan) :
    (calls (.node call kind children)).countP Call.isToken =
      (callsOfAll children).countP Call.isToken := by
  simp [calls, Call.isToken]

end Builder.Plan

namespace Log

variable {base : Nat} {operations whole first second : List Operation}
  {plans : List Plan} {plan : Plan} {log : Log} {last? : Option Nat}

theorem perm_bracket {outside inside : List Nat} {marker : Nat} {kind : Kind}
    (opening : Operation) (opens : opening.opens = true)
    (outsidePerm : outside.Perm (first.findIdxs Operation.opens base))
    (insidePerm : inside.Perm (second.findIdxs Operation.opens (base + first.length + 1))) :
    ((base + first.length) :: (inside ++ outside)).Perm
      ((first ++ opening :: (second ++ [.complete marker kind])).findIdxs
        Operation.opens base) := by
  have closing : Operation.opens (.complete marker kind) = false := rfl
  simp only [List.findIdxs_append, List.findIdxs_cons, opens, closing, List.findIdxs_nil,
    List.append_nil, if_true, Bool.false_eq_true, if_false]
  exact ((insidePerm.cons _).append outsidePerm).trans List.perm_append_comm

/-- Every opened node is built once. -/
theorem Assembles.perm_starts (assembles : Assembles base operations plans) :
    (plans.flatMap Plan.starts).Perm (operations.findIdxs Operation.opens base) := by
  induction assembles with
  | nil => exact .nil
  | add _ ih => simpa [Plan.starts_leaf, List.findIdxs_append, Operation.opens] using ih
  | @node base before inner earlier children kind _ _ _ beforeIH innerIH =>
      have inside := ((List.reverse_perm children).flatMap_right Plan.starts).trans innerIH
      rw [List.flatMap_cons, Plan.starts_node, List.cons_append]
      exact perm_bracket .start rfl beforeIH inside
  | @around base call before inner firstKind kind parts earlier children _ _ _ beforeIH innerIH =>
      have inside := ((List.reverse_perm children).flatMap_right Plan.starts).trans innerIH
      rw [List.flatMap_cons] at beforeIH
      rw [List.flatMap_cons, Plan.starts_node, List.flatMap_cons, List.cons_append]
      refine .trans (.cons _ ?_) (perm_bracket (.precede call) rfl beforeIH inside)
      rw [← List.append_assoc]
      exact List.perm_append_comm.append_right _

theorem Assembles.countP_isToken (assembles : Assembles base operations plans) :
    (Plan.callsOfAll plans.reverse).countP Call.isToken =
      operations.countP Operation.addsToken := by
  induction assembles with
  | nil => rfl
  | @add _ _ _ tree _ ih =>
      rw [Plan.callsOfAll_reverse_cons, List.countP_append, List.countP_append, ih]
      cases tree <;> rfl
  | node _ _ _ beforeIH innerIH =>
      simp [Plan.callsOfAll, Plan.countP_isToken_node, Operation.addsToken, beforeIH, innerIH]
  | around _ _ _ beforeIH innerIH =>
      rw [Plan.callsOfAll_reverse_cons, List.countP_append, Plan.countP_isToken_node] at beforeIH ⊢
      rw [Plan.callsOfAll, List.countP_append, Plan.countP_isToken_node, innerIH]
      simp only [List.countP_append, List.countP_cons, Operation.addsToken, List.countP_nil,
        Bool.false_eq_true, if_false]
      omega

/-- A plan is what the operations at its positions say.  A node that was opened around
another one has that one as its first child. -/
inductive Nests (operations : List Operation) : Plan → Prop
  | leaf {call : Nat} {tree : Tree} :
      operations[call]? = some (.add tree) → Nests operations (.leaf call tree)
  | node {call : Nat} {kind : Kind} {children : List Plan} :
      operations[call]? = some .start → .complete call kind ∈ operations →
        (∀ child ∈ children, Nests operations child) →
          Nests operations (.node call kind children)
  | around {call completed : Nat} {kind firstKind : Kind} {parts children : List Plan} :
      operations[call]? = some (.precede completed) → .complete call kind ∈ operations →
        (∀ child ∈ .node completed firstKind parts :: children, Nests operations child) →
          Nests operations (.node call kind (.node completed firstKind parts :: children))

theorem stands_behind (stands : first ++ second <+: whole.drop base) :
    second <+: whole.drop (base + first.length) := by
  obtain ⟨rest, split⟩ := stands
  refine ⟨rest, ?_⟩
  rw [← List.drop_drop, ← split, List.append_assoc, List.drop_left]

theorem stands_first {operation : Operation} (stands : operation :: second <+: whole.drop base) :
    whole[base]? = some operation ∧ second <+: whole.drop (base + 1) := by
  obtain ⟨rest, split⟩ := stands
  constructor
  · rw [← Nat.add_zero base, ← List.getElem?_drop, ← split]
    rfl
  · exact ⟨rest, by rw [← List.drop_drop, ← split]; rfl⟩

/-- What stands where in a bracket. -/
theorem stands_bracket {opening closing : Operation}
    (stands : first ++ opening :: (second ++ [closing]) <+: whole.drop base) :
    first <+: whole.drop base ∧ whole[base + first.length]? = some opening ∧
      second <+: whole.drop (base + first.length + 1) ∧ closing ∈ whole := by
  obtain ⟨opened, inside⟩ := stands_first (stands_behind stands)
  exact ⟨(List.prefix_append _ _).trans stands, opened, (List.prefix_append _ _).trans inside,
    List.mem_of_mem_drop (inside.subset (by simp))⟩

theorem Assembles.nests (assembles : Assembles base operations plans)
    (stands : operations <+: whole.drop base) : ∀ plan ∈ plans, Nests whole plan := by
  induction assembles with
  | nil => simp
  | add _ ih =>
      have earlier := ih ((List.prefix_append _ _).trans stands)
      exact List.forall_mem_cons.mpr ⟨.leaf (stands_first (stands_behind stands)).1, earlier⟩
  | node _ _ _ beforeIH innerIH =>
      obtain ⟨before, opened, inside, closed⟩ := stands_bracket stands
      refine List.forall_mem_cons.mpr ⟨.node opened closed fun child member => ?_, beforeIH before⟩
      exact innerIH inside child (List.mem_reverse.mp member)
  | around _ _ _ beforeIH innerIH =>
      obtain ⟨before, opened, inside, closed⟩ := stands_bracket stands
      obtain ⟨completed, earlier⟩ := List.forall_mem_cons.mp (beforeIH before)
      refine List.forall_mem_cons.mpr ⟨.around opened closed ?_, earlier⟩
      refine List.forall_mem_cons.mpr ⟨completed, fun child member => ?_⟩
      exact innerIH inside child (List.mem_reverse.mp member)

/-- A node was opened around another one. -/
def Surrounds (operations : List Operation) (inner outer : Nat) : Prop :=
  operations[outer]? = some (.precede inner)

theorem Nests.exists_inner (nests : Nests operations plan) {above path : List Nat}
    {inner outer : Nat} {kind : Kind} (surrounds : Surrounds operations inner outer)
    (member : .node outer kind path ∈ plan.parts above) :
    ∃ innerKind, .node inner innerKind (outer :: path) ∈ plan.parts above := by
  induction nests generalizing above with
  | leaf => simp [Plan.parts] at member
  | node opened _ _ ih =>
      rcases Plan.mem_parts_node_iff.mp member with same | ⟨child, childIn, inside⟩
      · obtain ⟨rfl, -, -⟩ := Part.node.inj same
        simp [Surrounds, opened] at surrounds
      · obtain ⟨innerKind, found⟩ := ih child childIn inside
        exact ⟨innerKind, Plan.mem_parts_node_iff.mpr (.inr ⟨child, childIn, found⟩)⟩
  | @around call completed kind firstKind parts children opened _ _ ih =>
      rcases Plan.mem_parts_node_iff.mp member with same | ⟨child, childIn, inside⟩
      · obtain ⟨rfl, -, rfl⟩ := Part.node.inj same
        obtain rfl : completed = inner := by simpa [Surrounds, opened] using surrounds
        have first : Part.node completed firstKind (outer :: path) ∈
            Plan.parts (outer :: path) (.node completed firstKind parts) :=
          Plan.mem_parts_node_iff.mpr (.inl rfl)
        exact ⟨firstKind, Plan.mem_parts_node_iff.mpr (.inr ⟨_, List.mem_cons_self, first⟩)⟩
      · obtain ⟨innerKind, found⟩ := ih child childIn inside
        exact ⟨innerKind, Plan.mem_parts_node_iff.mpr (.inr ⟨child, childIn, found⟩)⟩

/-- However many nodes are opened around each other, the first one stands in all the
others, innermost in the one that was opened next. -/
theorem exists_chain (nested : ∀ plan ∈ plans, Nests operations plan)
    (built : ∀ position ∈ operations.findIdxs Operation.opens,
      position ∈ plans.flatMap Plan.starts)
    {first : Nat} {chain : List Nat} (opened : first ∈ operations.findIdxs Operation.opens)
    (surrounded : (first :: chain).IsChain (Surrounds operations)) :
    ∃ kind outer, .node first kind (chain ++ outer) ∈ Plan.partsOfAll [] plans := by
  rw [Plan.partsOfAll_eq_flatMap]
  induction chain generalizing first with
  | nil =>
      obtain ⟨plan, planIn, started⟩ := List.mem_flatMap.mp (built first opened)
      obtain ⟨part, partIn, isStart⟩ := List.mem_filterMap.mp started
      cases part with
      | leaf => contradiction
      | node here kind above =>
          obtain rfl : here = first := Option.some_inj.mp isStart
          exact ⟨kind, above, List.mem_flatMap.mpr ⟨plan, planIn, partIn⟩⟩
  | cons next rest ih =>
      obtain ⟨surrounds, further⟩ := List.isChain_cons_cons.mp surrounded
      have nextOpened : next ∈ operations.findIdxs Operation.opens := by
        obtain ⟨inside, here⟩ := List.getElem?_eq_some_iff.mp surrounds
        exact List.mem_findIdxs_iff_exists_getElem_pos.mpr ⟨inside, by rw [here]; rfl⟩
      obtain ⟨kind, outer, member⟩ := ih nextOpened further
      obtain ⟨plan, planIn, inside⟩ := List.mem_flatMap.mp member
      obtain ⟨innerKind, found⟩ := (nested plan planIn).exists_inner surrounds inside
      exact ⟨innerKind, outer, List.mem_flatMap.mpr ⟨plan, planIn, found⟩⟩

/-- The calls that build plans inside of a source file. -/
def fileCalls (plans : List Plan) : List Call :=
  .start .sourceFile :: Plan.callsOfAll plans ++ [.finish]

theorem Logged.resolve (logged : Logged 0 operations plans log) :
    Log.resolve log =
      some (fileCalls plans.reverse, (Plan.callsOfAll plans.reverse).countP Call.isToken) := by
  have emitted := logged.emits [] [.start .sourceFile] 0
  rw [List.append_nil, ← List.range_eq_range', visited, List.replicate_zero, List.nil_append]
    at emitted
  simp only [Log.resolve, emitted, Option.map_some, visited, Nat.zero_add]
  rfl

/-- Operations are resolved: their log gives the calls that build what the operations
build directly. -/
structure Resolves (operations : List Operation) (log : Log) (plans : List Plan) : Prop where
  recorded : record operations = some log
  /-- A node goes by the number of operations before it, as its start stands there in the log. -/
  positions : ∀ before after, operations = before ++ after →
    ∃ front : Log, record before = some front ∧ front.length = before.length ∧
      performAll after front = some log
  /-- Without a log the operations build these plans. -/
  direct : Scaffold.ofOperations operations = ⟨plans.reverse, []⟩
  resolved : resolve log = some (fileCalls plans, operations.countP Operation.addsToken)
  /-- Every node is started and finished once. -/
  balanced : Builder.Balanced (fileCalls plans)
  starts : (plans.flatMap Plan.starts).Perm (operations.findIdxs Operation.opens)
  /-- Every node is what was opened and finished under its position, and stands around the
  node that it was opened around. -/
  nested : ∀ plan ∈ plans, Nests operations plan
  /-- Nodes that are opened around each other are innermost in the order of opening. -/
  chains : ∀ first ∈ operations.findIdxs Operation.opens, ∀ chain,
    (first :: chain).IsChain (Surrounds operations) →
      ∃ kind outer, .node first kind (chain ++ outer) ∈ Plan.partsOfAll [] plans
  /-- A builder carries the calls out. -/
  built : ∃ children, Builder.build (fileCalls plans) = .ok (.node .sourceFile children)
  /-- A sketch builds the same trees without empty nodes, if no node is opened around one. -/
  sketched : Scaffold.Solid operations →
    Operation.carryOut Scaffold.sketchStep 0 operations {} =
      ⟨plans.reverse.filterMap Plan.kept?, []⟩

/-- Bracketed operations are resolved to what they build. -/
theorem Assembles.exists_resolves {latest : List Plan} (assembles : Assembles 0 operations latest)
    (direct : Scaffold.ofOperations operations = ⟨latest, []⟩) :
    ∃ log, Resolves operations log latest.reverse := by
  obtain ⟨log, logged, -⟩ := assembles.logged
  have recorded : record operations = some log := logged.recorded [] rfl
  have starts := assembles.perm_starts
  have nested : ∀ plan ∈ latest, Nests operations plan := assembles.nests (List.prefix_refl _)
  have planned : ∀ plan ∈ latest.reverse, Nests operations plan := fun plan member =>
    nested plan (List.mem_reverse.mp member)
  have each := ((List.reverse_perm latest).flatMap_right Plan.starts).trans starts
  have balanced := Plan.balanced_callsOfAll latest.reverse
  refine ⟨log, ?_⟩
  exact
    { recorded := recorded
      positions := fun before after split => by
        rw [split, record, performAll_append] at recorded
        obtain ⟨front, taken, behind⟩ := Option.bind_eq_some_iff.mp recorded
        exact ⟨front, taken, by simpa using length_performAll taken, behind⟩
      direct := by rw [List.reverse_reverse, direct]
      resolved := by rw [logged.resolve, assembles.countP_isToken]
      balanced := balanced.enclose .sourceFile
      starts := each
      nested := planned
      chains := fun first opened chain surrounded =>
        exists_chain planned (fun position member => each.mem_iff.mpr member) opened surrounded
      built := balanced.exists_build
      sketched := fun solid => by
        rw [solid.sketched, direct, List.reverse_reverse]
        rfl }

/-- A chain of two differences: a number, a minus sign and a number, then a minus sign and
a number behind the node around them. -/
def chained : List Operation :=
  [.start, .add (.token .number 1), .complete 0 .numberLiteral,
    .precede 0, .add (.token .minus 1),
    .start, .add (.token .number 1), .complete 5 .numberLiteral, .complete 3 .binaryExpr,
    .precede 3, .add (.token .minus 1),
    .start, .add (.token .number 1), .complete 11 .numberLiteral, .complete 9 .binaryExpr]

end Log
end Asm6502
