import Asm6502.Proofs.LineCommands

/-!
# Lines in blocks

A block has an opening line, parts that are closed, and the line that closes it or
whatever the text ends in.  So it is known of every line in a text what stands around
it, and which effect it has there; commands with an effect stand in such lines only.
-/

namespace Asm6502

open Written Place

variable {dialect : Dialect} {written line : Written} {children lead trail : List Written}

/-- What follows the closed parts of a block: its closing line, or whatever the text
ends in. -/
inductive Remainder (dialect : Dialect) (block : BlockKind) : List Written → Prop
  | closer {closer : Written} :
      LineWith dialect (some block) (some .closes) closer → Remainder dialect block [closer]
  | ending {start : Nat} {tail : List Written} {reports : List Diagnostic} :
      Ending dialect (some block) start tail reports → Remainder dialect block tail

/-- A block with its opening line. -/
inductive Bracketed (dialect : Dialect) : BlockKind → Written → Prop
  | intro {block? : Option BlockKind} {block : BlockKind} {keyword : Span}
      {opener : Written} {body rest : List Written} :
      LineWith dialect block? (some (.opens block keyword)) opener →
        (∀ part ∈ body, Section dialect (some block) part) → Remainder dialect block rest →
          Bracketed dialect block (.node block.nodeKind (opener :: (body ++ rest)))

/-- A node that stands outside of lines, or a line. -/
def Written.IsOuter (written : Written) : Prop :=
  written.isToken = false ∧ written.kind.isOuter = true

theorem Written.IsInner.not_isOuter (inner : written.IsInner) : ¬ written.IsOuter := by
  rintro ⟨isNode, isOuter⟩
  cases written with
  | leaf => contradiction
  | node => exact inner.false_of_isOuter isOuter

theorem LineWith.isOuter {block? : Option BlockKind} {edge? : Option BlockEdge}
    (lineWith : LineWith dialect block? edge? written) : written.IsOuter := by
  obtain ⟨children, rfl, -, -⟩ := lineWith
  exact ⟨rfl, rfl⟩

theorem Section.isOuter {block? : Option BlockKind}
    (shape : Section dialect block? written) : written.IsOuter := by
  cases shape with
  | line lineWith => exact lineWith.isOuter
  | block => exact ⟨rfl, Kind.isOuter_nodeKind _⟩

theorem BlockKind.nodeKind_ne_line (block : BlockKind) : block.nodeKind ≠ .line := by
  cases block <;> decide

theorem Ending.eq_block {block? : Option BlockKind} {start : Nat} {tail : List Written}
    {reports : List Diagnostic} (ending : Ending dialect block? start tail reports)
    (member : written ∈ tail) :
    ∃ (block : BlockKind) (children : List Written),
      written = .node block.nodeKind children := by
  cases ending with
  | closed => contradiction
  | unclosed => exact ⟨_, _, List.mem_singleton.mp member⟩

theorem Ending.isOuter {block? : Option BlockKind} {start : Nat} {tail : List Written}
    {reports : List Diagnostic} (ending : Ending dialect block? start tail reports)
    (member : written ∈ tail) : written.IsOuter := by
  obtain ⟨block, children, rfl⟩ := ending.eq_block member
  exact ⟨rfl, Kind.isOuter_nodeKind block⟩

theorem Bracketed.isOuter {kind : Kind} {block : BlockKind}
    (bracketed : Bracketed dialect block (.node kind children)) :
    ∀ child ∈ children, child.IsOuter := by
  intro child member
  cases bracketed with
  | @intro _ _ _ opener body rest opens inside remainder =>
      have cases : child = opener ∨ child ∈ body ∨ child ∈ rest := by simpa using member
      rcases cases with rfl | inBody | inRest
      · exact opens.isOuter
      · exact (inside child inBody).isOuter
      · cases remainder with
        | closer closes =>
            obtain rfl := List.mem_singleton.mp inRest
            exact closes.isOuter
        | ending ending => exact ending.isOuter inRest

/-- A line of a block is its opening line, a line without effect, or the line that
closes it. -/
theorem Bracketed.line_cases {kind : Kind} {block : BlockKind}
    (bracketed : Bracketed dialect block (.node kind (lead ++ line :: trail)))
    (isLine : line.kind = .line) :
    (lead = [] ∧ ∃ block? keyword,
        LineWith dialect block? (some (.opens block keyword)) line) ∨
      LineWith dialect (some block) none line ∨
        trail = [] ∧ LineWith dialect (some block) (some .closes) line := by
  generalize split : lead ++ line :: trail = children at bracketed
  cases bracketed with
  | @intro _ _ _ opener body rest opens inside remainder =>
      cases lead with
      | nil =>
          obtain rfl : line = opener := (List.cons.inj split).1
          exact .inl ⟨rfl, _, _, opens⟩
      | cons first lead =>
          have behind : lead ++ line :: trail = body ++ rest := (List.cons.inj split).2
          have cases : line ∈ body ∨ ∃ early, rest = early ++ line :: trail := by
            rcases List.append_eq_append_iff.mp behind with
              ⟨between, rfl, late⟩ | ⟨between, rfl, late⟩
            · cases between with
              | nil => exact .inr ⟨[], late.symm⟩
              | cons => exact .inl (by simp [(List.cons.inj late).1])
            · exact .inr ⟨between, late⟩
          rcases cases with inBody | ⟨early, rfl⟩
          · cases inside line inBody with
            | line lineWith => exact .inr (.inl lineWith)
            | block => exact absurd isLine (BlockKind.nodeKind_ne_line _)
          · generalize restEq : early ++ line :: trail = rest at remainder
            cases remainder with
            | closer closes =>
                obtain ⟨rfl, same⟩ | ⟨-, empty⟩ := List.append_eq_singleton_iff.mp restEq
                · obtain ⟨rfl, rfl⟩ := List.cons.inj same
                  exact .inr (.inr ⟨rfl, closes⟩)
                · contradiction
            | ending ending =>
                have member : line ∈ early ++ line :: trail := by simp
                obtain ⟨other, children, rfl⟩ := ending.eq_block (restEq ▸ member)
                exact absurd isLine (BlockKind.nodeKind_ne_line other)

/-- The nodes that are not inside of lines: the root, lines and blocks. -/
inductive Outer (dialect : Dialect) : Written → Prop
  | root {settled tail : List Written} {start : Nat} {reports : List Diagnostic} :
      (∀ part ∈ settled, Section dialect none part) →
        Ending dialect none start tail reports →
          Outer dialect (.node .sourceFile (settled ++ tail))
  | line {block? : Option BlockKind} {edge? : Option BlockEdge} {written : Written} :
      LineWith dialect block? edge? written → Outer dialect written
  | block {block : BlockKind} {written : Written} :
      Bracketed dialect block written → Outer dialect written

theorem Standing.outer (standing : Standing dialect written) (isOuter : written.IsOuter) :
    Outer dialect written := by
  cases standing with
  | root sections ending => exact .root sections ending
  | closed closed =>
      cases closed with
      | line lineWith => exact .line lineWith
      | part shape =>
          cases shape with
          | line lineWith => exact .line lineWith
          | block opens inside closes => exact .block (.intro opens inside (.closer closes))
      | inline _ inner => exact absurd isOuter inner.not_isOuter
  | unclosed ending inTail =>
      cases ending with
      | closed => contradiction
      | unclosed opens early inside ending =>
          obtain rfl := List.mem_singleton.mp inTail
          exact .block (.intro opens inside (.ending ending))

theorem Bracketed.kind {block : BlockKind} (bracketed : Bracketed dialect block written) :
    written.kind = block.nodeKind := by
  cases bracketed
  rfl

theorem Outer.bracketed (outer : Outer dialect written)
    (isBlock : written.kind.isBlock = true) : ∃ block, Bracketed dialect block written := by
  cases outer with
  | root => contradiction
  | line lineWith =>
      rw [lineWith.kind] at isBlock
      contradiction
  | block bracketed => exact ⟨_, bracketed⟩

theorem Standing.child_cases {kind : Kind} (standing : Standing dialect (.node kind children))
    (member : written ∈ children) :
    Outer dialect (.node kind children) ∨
      (Written.node kind children).Formed dialect ∧ written.IsInner := by
  cases isOuter : kind.isOuter with
  | true => exact .inl (standing.outer ⟨rfl, isOuter⟩)
  | false =>
      have formed := standing.formed isOuter
      refine .inr ⟨formed, ?_⟩
      cases formed with
      | node among => exact (among written member).isInner fun _ => Kind.not_isOuter_of_holds

theorem Outer.isLine_of_child {kind : Kind} (outer : Outer dialect (.node kind children))
    (member : written ∈ children) (notOuter : ¬ written.IsOuter) : kind = .line := by
  generalize isWhole : Written.node kind children = whole at outer
  cases outer with
  | root sections ending =>
      obtain ⟨-, rfl⟩ := Written.node.inj isWhole
      rcases List.mem_append.mp member with early | late
      · exact absurd (sections written early).isOuter notOuter
      · exact absurd (ending.isOuter late) notOuter
  | line lineWith =>
      rw [← isWhole] at lineWith
      exact lineWith.kind
  | block bracketed =>
      rw [← isWhole] at bracketed
      exact absurd (bracketed.isOuter written member) notOuter

theorem Kind.eq_field_of_holds_directive {kind : Kind} (held : kind.holds .directive = true) :
    kind = .field := by
  revert held
  cases kind <;> decide

namespace Place

variable {root : Written} {place : Place} {kind : Kind} {block : BlockKind}

theorem Occurs.part_mem_children
    (occurs : Occurs root place (.node kind (lead ++ written :: trail))) :
    part kind place.above lead written trail ∈ place.children := by
  obtain ⟨before, behind, split, -⟩ := occurs.children_split
  simp [split]

theorem Occurs.mem_preorder (occurs : Occurs root place written) :
    place ∈ preorder ⟨root.tree, []⟩ := by
  induction occurs with
  | root => exact mem_preorder_self _
  | child above ih => exact children_subset_preorder ih _ above.part_mem_children

/-- Where a line stands: outside of blocks, or in a block as the line that opens it,
as a line without effect, or as the line that closes it. -/
inductive LineContext (dialect : Dialect) (root : Written) (place : Place)
    (line : Written) : Prop
  | outside : LineWith dialect none none line → LineContext dialect root place line
  | opening {above : Place} {whole : Written} {block? : Option BlockKind}
      {block : BlockKind} {keyword : Span} :
      Occurs root above whole → Bracketed dialect block whole →
        above.children.head? = some place →
          LineWith dialect block? (some (.opens block keyword)) line →
            LineContext dialect root place line
  | inside {above : Place} {whole : Written} {block : BlockKind} :
      Occurs root above whole → Bracketed dialect block whole → place ∈ above.children →
        LineWith dialect (some block) none line → LineContext dialect root place line
  | closing {above : Place} {whole : Written} {block : BlockKind} :
      Occurs root above whole → Bracketed dialect block whole →
        above.children.getLast? = some place →
          LineWith dialect (some block) (some .closes) line →
            LineContext dialect root place line

theorem LineContext.lineWith (context : LineContext dialect root place line) :
    ∃ block? edge?, LineWith dialect block? edge? line := by
  cases context with
  | outside lineWith => exact ⟨_, _, lineWith⟩
  | opening _ _ _ lineWith => exact ⟨_, _, lineWith⟩
  | inside _ _ _ lineWith => exact ⟨_, _, lineWith⟩
  | closing _ _ _ lineWith => exact ⟨_, _, lineWith⟩

theorem Occurs.head?_children
    (occurs : Occurs root place (.node kind (written :: trail))) :
    place.children.head? = some (part kind place.above [] written trail) := by
  obtain ⟨behind, split, -⟩ := occurs.children_cons
  rw [split, List.head?_cons]

theorem Occurs.getLast?_children
    (occurs : Occurs root place (.node kind (lead ++ [written]))) :
    place.children.getLast? = some (part kind place.above lead written []) := by
  obtain ⟨before, behind, split, -, late⟩ := occurs.children_split
  cases late
  rw [split, List.getLast?_concat]

/-- Where a line stands in the tree of a text. -/
theorem Occurs.lineContext (occurs : Occurs root place line)
    (start : Standing dialect root) (isRoot : root.kind = .sourceFile)
    (isNode : line.isToken = false) (isLine : line.kind = .line) :
    LineContext dialect root place line := by
  cases occurs with
  | root =>
      rw [isLine] at isRoot
      contradiction
  | @child above kind lead trail _ occursAbove =>
      have isOuter : line.IsOuter := ⟨isNode, by rw [isLine]; rfl⟩
      have member : line ∈ lead ++ line :: trail := by simp
      rcases (occursAbove.standing start).child_cases member with outer | ⟨-, inner⟩
      · generalize isWhole : Written.node kind (lead ++ line :: trail) = whole at outer
        cases outer with
        | root sections ending =>
            obtain ⟨-, split⟩ := Written.node.inj isWhole
            rw [split] at member
            rcases List.mem_append.mp member with early | late
            · cases sections line early with
              | line lineWith => exact .outside lineWith
              | block => exact absurd isLine (BlockKind.nodeKind_ne_line _)
            · obtain ⟨block, children, rfl⟩ := ending.eq_block late
              exact absurd isLine (BlockKind.nodeKind_ne_line block)
        | line lineWith =>
            obtain ⟨children, rfl, -, shape⟩ := lineWith
            obtain ⟨-, rfl⟩ := Written.node.inj isWhole
            exact absurd isOuter (shape.isInner line member).not_isOuter
        | block bracketed =>
            subst isWhole
            rcases bracketed.line_cases isLine with
              ⟨rfl, block?, keyword, opens⟩ | inside | ⟨rfl, closes⟩
            · have occursFirst : Occurs root above (.node kind (line :: trail)) := occursAbove
              exact .opening occursAbove bracketed occursFirst.head?_children opens
            · exact .inside occursAbove bracketed occursAbove.part_mem_children inside
            · exact .closing occursAbove bracketed occursAbove.getLast?_children closes
      · exact absurd isOuter inner.not_isOuter

theorem Occurs.line_of_directive {role : BlockRole} (occurs : Occurs root place written)
    (start : Standing dialect root) (isRoot : root.kind = .sourceFile)
    (isNode : written.isToken = false) (isDirective : written.kind = .directive)
    (found : View.Directive.role? dialect root.bytes place = some role)
    (notPlain : role ≠ .plain) :
    ∃ above whole keyword, Occurs root above whole ∧ LineContext dialect root above whole ∧
      View.Line.Commands dialect root.bytes above place keyword role := by
  cases occurs with
  | root =>
      rw [isDirective] at isRoot
      contradiction
  | @child above kind lead trail _ occursAbove =>
      have member : written ∈ lead ++ written :: trail := by simp
      cases written with
      | leaf => contradiction
      | node command parts =>
          obtain rfl : command = .directive := isDirective
          have notOuter : ¬ (Written.node .directive parts).IsOuter := by
            rintro ⟨-, isOuter⟩
            contradiction
          rcases (occursAbove.standing start).child_cases member with outer | ⟨formed, -⟩
          · obtain rfl : kind = .line := outer.isLine_of_child member notOuter
            have context := occursAbove.lineContext start isRoot rfl rfl
            obtain ⟨block?, edge?, children, same, -, shape⟩ := context.lineWith
            obtain ⟨-, rfl⟩ := Written.node.inj same
            obtain ⟨keyword, command, commands, -⟩ := occursAbove.exists_commands shape rfl
            obtain rfl := Option.some.inj (commands.role.symm.trans found)
            exact ⟨above, _, keyword, occursAbove, context, commands⟩
          · -- Inside of lines commands stand in fields only, and these are plain.
            cases formed with
            | node among shape =>
                rcases among _ member with isToken | held
                · contradiction
                · obtain rfl := Kind.eq_field_of_holds_directive held
                  obtain ⟨command, commandShape, plain⟩ := shape _ member rfl rfl
                  cases commandShape with
                  | intro isWord listed =>
                      have role := (Occurs.child occursAbove).role?_eq isWord listed
                      rw [found, plain] at role
                      exact absurd (Option.some.inj role) notPlain

end Place
end Asm6502
