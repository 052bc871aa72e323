import Asm6502.Proofs.ErrorNodes
import Asm6502.Proofs.LineWriting
import Asm6502.Proofs.LockstepDrafts
import Asm6502.Proofs.TreeFrames

/-!
# Tokens that open no list

A list in braces is an argument of a call if its first brace comes first in a node of its
own whose parent is the call.  Where a brace has been taken into an error, into the middle
of another list or into an argument of a macro, it stays there for good, since closed nodes
are never opened again.
-/

namespace Asm6502

namespace Crumb

/-- The surroundings of the first token of a list that is an argument of a call. -/
def OpensList (above : List Crumb) : Prop :=
  ∃ after call outer, above = ⟨.macroArg, [], after⟩ :: call :: outer ∧ call.kind = .callExpr

/-- Whatever stands further outside, these are not the surroundings of the first token of
an argument. -/
def Astray (above : List Crumb) : Prop :=
  ∀ outer, ¬OpensList (above ++ outer)

theorem Astray.append {above : List Crumb} (astray : Astray above) (outer : List Crumb) :
    Astray (above ++ outer) := fun further => by
  rw [List.append_assoc]
  exact astray (outer ++ further)

theorem astray_of_inner {crumb : Crumb} (inner : crumb.kind ≠ .macroArg ∨ crumb.before ≠ [])
    (above : List Crumb) : Astray (crumb :: above) := by
  rintro outer ⟨after, call, further, same, -⟩
  obtain ⟨rfl, -⟩ := List.cons.inj same
  exact inner.elim (fun other => other rfl) fun later => later rfl

theorem astray_of_outer {crumb parent : Crumb} (notCall : parent.kind ≠ .callExpr)
    (above : List Crumb) : Astray (crumb :: parent :: above) := by
  rintro outer ⟨after, call, further, same, isCall⟩
  obtain ⟨-, same⟩ := List.cons.inj same
  obtain ⟨rfl, -⟩ := List.cons.inj same
  exact notCall isCall

end Crumb

namespace Tree

/-- The token at a position of some trees stands astray in one of them. -/
def HasAstray (position : Nat) (trees : List Tree) : Prop :=
  ∃ before above kind length after,
    trees = before ++ Crumb.plug above (.token kind length) :: after ∧
      totalLength before + Crumb.offset above ≤ position ∧
        position < totalLength before + Crumb.offset above + length ∧ Crumb.Astray above

variable {position : Nat} {trees others : List Tree}

theorem HasAstray.append (astray : HasAstray position trees) (more : List Tree) :
    HasAstray position (trees ++ more) := by
  obtain ⟨before, above, kind, length, after, rfl, start, stop, lost⟩ := astray
  exact ⟨before, above, kind, length, after ++ more, by simp, start, stop, lost⟩

theorem HasAstray.behind (astray : HasAstray position trees) (others : List Tree) :
    HasAstray (totalLength others + position) (others ++ trees) := by
  obtain ⟨before, above, kind, length, after, rfl, start, stop, lost⟩ := astray
  refine ⟨others ++ before, above, kind, length, after, by simp, ?_, ?_, lost⟩
  · rw [totalLength_append]
    omega
  · rw [totalLength_append]
    omega

theorem HasAstray.node (astray : HasAstray position (trees ++ others)) (kind : Kind) :
    HasAstray position (trees ++ [.node kind others]) := by
  obtain ⟨before, above, leaf, length, after, split, start, stop, lost⟩ := astray
  rcases List.append_eq_append_iff.mp split with ⟨between, rfl, rest⟩ | ⟨between, rfl, rest⟩
  · refine ⟨trees, above ++ [⟨kind, between.reverse, after⟩], leaf, length, [], ?_, ?_, ?_,
      lost.append _⟩
    · rw [Crumb.plug_concat, Crumb.fill, List.reverse_reverse, rest]
    · rw [Crumb.offset_concat, Place.totalLength_reverse]
      rw [totalLength_append] at start
      omega
    · rw [Crumb.offset_concat, Place.totalLength_reverse]
      rw [totalLength_append] at stop
      omega
  · cases between with
    | nil =>
        rw [List.append_nil]
        refine ⟨before, above ++ [⟨kind, [], after⟩], leaf, length, [], ?_, ?_, ?_,
          lost.append _⟩
        · rw [Crumb.plug_concat, Crumb.fill]
          simpa using rest.symm
        · rw [Crumb.offset_concat]
          simpa [totalLength] using start
        · rw [Crumb.offset_concat]
          simpa [totalLength] using stop
    | cons first between =>
        obtain ⟨rfl, rfl⟩ := List.cons.inj rest
        exact ⟨before, above, leaf, length, between ++ [.node kind others], by simp, start, stop,
          lost⟩

theorem HasAstray.not_opensList (astray : HasAstray position trees) {kind leaf : Kind}
    {above : List Crumb} {length : Nat}
    (whole : Crumb.plug above (.token leaf length) = .node kind trees)
    (here : Crumb.offset above ≤ position ∧ position < Crumb.offset above + length) :
    ¬Crumb.OpensList above := by
  have closed := @HasAstray.node _ [] _ astray kind
  obtain ⟨before, other, leaf', length', after, split, start, stop, lost⟩ := closed
  rw [List.nil_append] at split
  have alone : before = [] := by
    cases before with
    | nil => rfl
    | cons first before => simp at split
  subst alone
  obtain ⟨same, -⟩ := List.cons.inj split
  have surroundings := Crumb.plug_token_unique (whole.trans same) here
    (by simpa only [totalLength, Nat.zero_add] using And.intro start stop)
  have opens := lost []
  rwa [List.append_nil, ← surroundings] at opens

end Tree

theorem Written.exists_split_of_lt {trees : List Written} {position : Nat}
    (inside : position < Tree.totalLength (trees.map tree)) :
    ∃ lead written others, trees = lead ++ written :: others ∧
      Tree.totalLength (lead.map tree) ≤ position ∧
        position < Tree.totalLength (lead.map tree) + written.tree.length := by
  obtain ⟨before, found, after, split, start, stop⟩ := Tree.exists_split_of_lt inside
  obtain ⟨lead, rest, rfl, rfl, behind⟩ := List.map_eq_append_iff.mp split
  obtain ⟨written, others, rfl, rfl, -⟩ := List.map_eq_cons_iff.mp behind
  exact ⟨lead, written, others, rfl, start, stop⟩

/-- A raw list holds nothing but tokens. -/
theorem Written.Formed.exists_leaf_of_macroArg {dialect : Dialect} {parts : List Written}
    (formed : (Written.node .macroArg parts).Formed dialect) :
    ∀ part ∈ parts, ∃ token, part = .leaf token := by
  intro part member
  cases formed with
  | node among _ _ =>
      cases part with
      | leaf token => exact ⟨token, rfl⟩
      | node inner children =>
          rcases among _ member with isToken | held
          · contradiction
          · contradiction

/-- No token of a raw list opens an argument of a call if the list stands in another
node. -/
theorem Tree.hasAstray_of_list {position : Nat} {front lead others : List Tree}
    {parts : List Written} {outer : Kind} (flat : ∀ part ∈ parts, ∃ token, part = .leaf token)
    (notCall : outer ≠ .callExpr) (start : totalLength front + totalLength lead ≤ position)
    (stop : position <
      totalLength front + totalLength lead + totalLength (parts.map Written.tree)) :
    HasAstray position
      (front ++ [.node outer (lead ++ .node .macroArg (parts.map Written.tree) :: others)]) := by
  obtain ⟨first, part, rest, rfl, partStart, partStop⟩ :=
    @Written.exists_split_of_lt parts (position - totalLength front - totalLength lead) (by omega)
  obtain ⟨token, rfl⟩ := flat part (by simp)
  rw [Written.tree, Draft.leaf, Tree.length] at partStop
  refine ⟨front, [⟨.macroArg, (first.map Written.tree).reverse, rest.map Written.tree⟩,
    ⟨outer, lead.reverse, others⟩], token.kind, token.length, [], ?_, ?_, ?_,
    Crumb.astray_of_outer notCall []⟩
  · simp [Crumb.plug, Crumb.fill, Written.tree, Draft.leaf]
  · rw [Crumb.offset, Crumb.offset_singleton, Place.totalLength_reverse,
      Place.totalLength_reverse]
    omega
  · rw [Crumb.offset, Crumb.offset_singleton, Place.totalLength_reverse,
      Place.totalLength_reverse]
    omega

theorem Sketch.exists_forest_leave_add {τ : Type} {sketch : Sketch τ} (opened : sketch.tags ≠ [])
    (tree : Tree) (kind : Kind) :
    ∃ before children, sketch.forest = before ++ children ∧
      ((sketch.add tree).leave kind).forest = before ++ [.node kind (children ++ [tree])] := by
  obtain ⟨settled, openNodes⟩ := sketch
  cases openNodes with
  | nil => exact absurd rfl opened
  | cons entry outer =>
      refine ⟨(⟨settled, outer⟩ : Sketch τ).forest, entry.2.reverse, ?_, ?_⟩
      · simp [forest]
      · rw [add, leave, forest_add, List.reverse_cons]

theorem Sketch.hasAstray_leave {τ : Type} {position : Nat} {sketch : Sketch τ}
    (astray : Tree.HasAstray position sketch.forest) (kind : Kind) :
    Tree.HasAstray position (sketch.leave kind).forest := by
  rcases forest_leave sketch kind with same | ⟨before, children, -, split, closed⟩
  · rwa [same]
  · rw [closed]
    rw [split] at astray
    exact astray.node kind

namespace Draft

/-- A token that stands astray in a draft stays there. -/
theorem persistent_hasAstray (position : Nat) :
    Persistent fun draft => Tree.HasAstray position draft.sketch.forest where
  takeTrivia := by
    intro draft astray
    rw [Draft.takeTrivia, Sketch.forest_addAll]
    exact astray.append _
  bump := by
    intro draft astray
    cases ahead : draft.upcoming with
    | nil => simpa [Draft.bump, ahead] using astray
    | cons token behind =>
        rw [bump_of_upcoming ahead, Sketch.forest_add, Sketch.forest_addAll]
        exact (astray.append _).append _
  enter := by
    intro draft role astray
    rw [Draft.enter, Sketch.forest_enter, Draft.takeTrivia, Sketch.forest_addAll]
    exact astray.append _
  wrap := by
    intro draft role astray
    rw [Draft.wrap, Sketch.forest_wrap]
    exact astray
  leave kind astray := Sketch.hasAstray_leave astray kind
  errorAt _ _ astray := astray

/-- The tokens of a draft have been taken up to one in front of the position or at it. -/
structure StandsBefore (position : Nat) (draft : Draft) : Prop where
  length : Tree.totalLength draft.sketch.forest = draft.offset
  nextStart_le : draft.nextStart ≤ position

variable {dialect : Dialect} {draft after : Draft} {position : Nat} {kind : Kind}

/-- The first token of a node is the one that has been ahead. -/
theorem first_of_wrote {first token : Token} {others : List Written} {reports : List Diagnostic}
    (wrote : Wrote (draft.trivia.map .leaf ++ [.node kind (.leaf token :: others)]) reports draft
      after)
    (ahead : draft.upcoming.head? = some first) : token = first := by
  have rest := wrote.rest
  rw [← trivia_append_upcoming draft, Frame.allTokens, List.nil_append,
    Written.allTokens_append, Written.allTokens_map_leaf, List.append_assoc,
    List.append_cancel_left_eq] at rest
  rw [rest] at ahead
  simpa [Written.allTokens, Written.tokens] using ahead

theorem sketch_of_wrote {trees : List Written} {reports : List Diagnostic}
    (wrote : Wrote (draft.trivia.map .leaf ++ [.node kind trees]) reports draft after)
    (stands : StandsBefore position draft) :
    ∃ sketch : Sketch Role, after.sketch = sketch.add (.node kind (trees.map Written.tree)) ∧
      sketch.tags = draft.sketch.tags ∧ Tree.totalLength sketch.forest = draft.nextStart := by
  refine ⟨draft.sketch.addAll ((draft.trivia.map Written.leaf).map Written.tree), ?_, ?_, ?_⟩
  · rw [wrote.sketch, Frame.openAll, List.map_append, Sketch.addAll_append, List.map_singleton,
      Written.tree_node]
    rfl
  · rw [Sketch.tags_addAll]
  · rw [Sketch.forest_addAll, Tree.totalLength_append, stands.length,
      Written.totalLength_map_tree, Written.allTokens_map_leaf, Draft.nextStart]

/-- In a node that can only hold raw lists, no token opens an argument of a call. -/
theorem hasAstray_of_writesNode (writes : WritesNode dialect kind draft after)
    (stands : StandsBefore position draft)
    (taken : position < Tree.totalLength after.sketch.forest) (notCall : kind ≠ .callExpr)
    (shallow : ∀ inner, kind.holds inner = true → inner = .macroArg)
    (notFirst : kind = .macroArg →
      ∃ first, draft.upcoming.head? = some first ∧ draft.nextStart + first.length ≤ position) :
    Tree.HasAstray position after.sketch.forest := by
  obtain ⟨trees, reports, wrote, -, sound⟩ := writes
  obtain ⟨sketch, added, -, before⟩ := sketch_of_wrote wrote stands
  have forest := congrArg Sketch.forest added
  rw [Sketch.forest_add] at forest
  generalize sketch.forest = front at before forest
  have reached := stands.nextStart_le
  rw [forest, Tree.totalLength_append, before] at taken
  simp only [Tree.totalLength, Tree.length, Nat.add_zero] at taken
  obtain ⟨lead, child, others, rfl, start, stop⟩ :=
    @Written.exists_split_of_lt trees (position - draft.nextStart) (by omega)
  rw [forest]
  cases child with
  | leaf token =>
      rw [Written.tree, leaf, Tree.length] at stop
      refine ⟨front, [⟨kind, (lead.map Written.tree).reverse, others.map Written.tree⟩], token.kind,
        token.length, [], ?_, ?_, ?_, Crumb.astray_of_inner ?_ []⟩
      · simp [Crumb.plug, Crumb.fill, Written.tree, leaf]
      · rw [before, Crumb.offset_singleton, Place.totalLength_reverse]
        omega
      · rw [before, Crumb.offset_singleton, Place.totalLength_reverse]
        omega
      · by_cases isArgument : kind = .macroArg
        · right
          intro none
          obtain rfl : lead = [] := by simpa using none
          obtain ⟨first, ahead, further⟩ := notFirst isArgument
          obtain rfl : token = first := first_of_wrote wrote ahead
          simp only [List.map_nil, Tree.totalLength] at stop
          omega
        · exact .inl isArgument
  | node inner parts =>
      have member : Written.node inner parts ∈ lead ++ Written.node inner parts :: others := by simp
      obtain rfl : inner = .macroArg := by
        rcases sound.among _ member with isToken | held
        · contradiction
        · exact shallow inner held
      rw [Written.tree_node, Tree.length] at stop
      rw [List.map_append, List.map_cons, Written.tree_node]
      exact Tree.hasAstray_of_list (sound.formed _ member).exists_leaf_of_macroArg notCall
        (by omega) (by omega)

theorem hasAstray_leave_of_writesNode (writes : WritesNode dialect .macroArg draft after)
    (stands : StandsBefore position draft)
    (taken : position < Tree.totalLength after.sketch.forest)
    (opened : draft.sketch.tags ≠ []) (notCall : kind ≠ .callExpr) :
    Tree.HasAstray position (after.leave kind).sketch.forest := by
  obtain ⟨trees, reports, wrote, -, sound⟩ := writes
  have flat : ∀ part ∈ trees, ∃ token, part = .leaf token := by
    have formed := (sound.node trivial rfl : Sound dialect Kind.callExpr.holds _ _).formed
    exact (formed _ (List.mem_singleton_self _)).exists_leaf_of_macroArg
  have reached := stands.nextStart_le
  obtain ⟨sketch, added, tags, length⟩ := sketch_of_wrote wrote stands
  obtain ⟨before, children, split, closed⟩ := Sketch.exists_forest_leave_add (tags ▸ opened)
    (.node .macroArg (trees.map Written.tree)) kind
  rw [added, Sketch.forest_add, Tree.totalLength_append, length] at taken
  simp only [Tree.totalLength, Tree.length, Nat.add_zero] at taken
  rw [split, Tree.totalLength_append] at length
  rw [Draft.leave, added, closed]
  exact Tree.hasAstray_of_list flat notCall (by omega) (by omega)

end Draft
end Asm6502
