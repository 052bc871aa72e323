import Asm6502.Proofs.TextPlaces
import Asm6502.View.Block

/-!
# Commands of lines

A line has at most one command that is in place.  Its word tells which part the
command plays in block structure, and with that what becomes of the open blocks.
-/

namespace Asm6502

open List (Forall₂)
open Written Place

/-- A command of this role closes a block. -/
def BlockRole.isCloses : BlockRole → Bool
  | .closes _ => true
  | _ => false

namespace Vocabulary

/-- A command can be told from its spelling to be a closing one. -/
def SpelledAsRole (entry : String × Directive) : Prop :=
  View.Block.isCloser (Bytes.ascii entry.1) = entry.2.role.isCloses

theorem spelledAsRole_of_mem_commands :
    ∀ entry ∈ commands, SpelledAsRole entry := by
  have named : ∀ command ∈ directives, SpelledAsRole (command.name, command) := by
    unfold SpelledAsRole
    decide +kernel
  have short : ∀ entry ∈ aliases.filterMap fun entry =>
      (directives.find? fun command => command.name == entry.2).map (entry.1, ·),
      SpelledAsRole entry := by
    unfold SpelledAsRole
    decide +kernel
  intro entry member
  rcases List.mem_append.mp member with isNamed | isShort
  · obtain ⟨command, commandIn, rfl⟩ := List.mem_map.mp isNamed
    exact named command commandIn
  · exact short entry isShort

theorem mem_commands_of_mem_table {word : Bytes} {command : Directive}
    (member : (word, Keyword.directive command) ∈ table) :
    ∃ name, word = Bytes.ascii name ∧ (name, command) ∈ commands := by
  have other {keyword : Keyword} {names : List String} (differs : .directive command ≠ keyword) :
      (word, Keyword.directive command) ∉
        names.map fun name => (Bytes.ascii name, keyword) := by
    intro inNames
    obtain ⟨name, -, same⟩ := List.mem_map.mp inNames
    exact differs (Prod.mk.inj same).2.symm
  change (word, Keyword.directive command) ∈
    mnemonics.map (fun name => (Bytes.ascii name, Keyword.mnemonic)) ++
      registers.map (fun name => (Bytes.ascii name, Keyword.register)) ++
      pseudoFunctions.map (fun name => (Bytes.ascii name, Keyword.pseudoFunction)) ++
      pseudoVariables.map (fun name => (Bytes.ascii name, Keyword.pseudoVariable)) ++
      dotOperators.map (fun name => (Bytes.ascii name, Keyword.dotOperator)) ++
      commands.map (fun entry => (Bytes.ascii entry.1, Keyword.directive entry.2)) at member
  simp only [List.mem_append, other, reduceCtorEq, not_false_eq_true, ne_eq, false_or] at member
  obtain ⟨entry, entryIn, same⟩ := List.mem_map.mp member
  obtain ⟨rfl, rfl⟩ : Bytes.ascii entry.1 = word ∧ entry.2 = command := by simpa using same
  exact ⟨entry.1, rfl, entryIn⟩

end Vocabulary

theorem Dialect.isCloser_lower {dialect : Dialect} {word : Bytes} {command : Directive}
    (listed : dialect.directive? word = some command) :
    View.Block.isCloser (Bytes.lower word) = command.role.isCloses := by
  have found : dialect.keyword? word = some (.directive command) := by
    unfold directive? at listed
    split at listed
    · next found =>
        rw [found, Option.some.inj listed]
    · contradiction
  unfold keyword? at found
  split at found
  · split at found
    · exact absurd found (by simp)
    · obtain ⟨before, after, split, -⟩ := List.lookup_eq_some_iff.mp found
      have member : (Bytes.lower word, Keyword.directive command) ∈ Vocabulary.table := by
        rw [split]
        simp
      obtain ⟨name, spelled, inCommands⟩ := Vocabulary.mem_commands_of_mem_table member
      rw [spelled]
      exact Vocabulary.spelledAsRole_of_mem_commands (name, command) inCommands
  · contradiction

namespace View

/-- The part that a command plays in block structure. -/
def Directive.role? (dialect : Dialect) (source : Bytes) (directive : Place) :
    Option BlockRole :=
  (Directive.keyword? directive).bind fun keyword =>
    (dialect.directive? (keyword.bytes source)).map fun command => command.role

/-- The statement of a line is a command of this role, spelled by the keyword. -/
structure Line.Commands (dialect : Dialect) (source : Bytes) (line directive keyword : Place)
    (role : BlockRole) : Prop where
  isLine : line.kind = .line
  statement : Line.statement? line = some directive
  isDirective : directive.kind = .directive
  keyword : Directive.keyword? directive = some keyword
  role : Directive.role? dialect source directive = some role

end View

/-- A line has at most one command, and it decides about the effect. -/
theorem LineShape.of_directive {dialect : Dialect} {block? : Option BlockKind} {start : Nat}
    {lead parts trail : List Written} {edge? : Option BlockEdge}
    (shape : LineShape dialect block? start (lead ++ .node .directive parts :: trail) edge?) :
    ∃ word arguments command, parts = .leaf word :: arguments ∧
      (∀ child ∈ lead, child.Among Kind.standsAside) ∧ word.kind = .directiveKw ∧
        dialect.directive? word.text = some command ∧
          Statement.misplaced? block? command = none ∧
            edge? = Statement.edge?
              ⟨start + Token.totalLength (allTokens lead),
                start + Token.totalLength (allTokens lead) + word.length⟩ command.role := by
  generalize childrenEq : lead ++ Written.node .directive parts :: trail = children at shape
  cases shape with
  | plain stands =>
      have among := stands (.node .directive parts) (by simp [← childrenEq])
      rcases among with isToken | isPlain <;> contradiction
  | @command lead' trail' arguments word command leadAside trailAside isWord listed inPlace =>
      -- All that stands beside the command of the line is of another kind.
      have notBeside {beside : List Written}
          (aside : ∀ child ∈ beside, child.Among Kind.standsAside) :
          Written.node .directive parts ∉ beside := by
        intro member
        rcases aside _ member with isToken | isAside <;> contradiction
      obtain ⟨rfl, same, -⟩ := (List.append_cons_inj_of_notMem (notBeside leadAside)
        (notBeside trailAside)).mp childrenEq.symm
      obtain ⟨-, rfl⟩ := Written.node.inj same
      exact ⟨word, arguments, command, rfl, leadAside, isWord, listed, inPlace, rfl⟩

theorem LineShape.exists_directive {dialect : Dialect} {block? : Option BlockKind}
    {start : Nat} {children : List Written} {effect : BlockEdge}
    (shape : LineShape dialect block? start children (some effect)) :
    ∃ lead parts trail, children = lead ++ .node .directive parts :: trail := by
  generalize isEffect : some effect = edge? at shape
  cases shape with
  | plain => contradiction
  | command => exact ⟨_, _, _, rfl⟩

namespace Place

variable {root line : Written} {place : Place} {dialect : Dialect}
  {block? : Option BlockKind} {edge? : Option BlockEdge} {role : BlockRole}

theorem Occurs.children_cons {kind : Kind} {first : Written} {rest : List Written}
    (occurs : Occurs root place (.node kind (first :: rest))) :
    ∃ behind, place.children = part kind place.above [] first rest :: behind ∧
      Forall₂ (Occurs root) behind rest := by
  have occursAs : Occurs root place (.node kind ([] ++ first :: rest)) := occurs
  obtain ⟨before, behind, split, early, late⟩ := occursAs.children_split
  cases early
  exact ⟨behind, split, late⟩

theorem Occurs.exists_keyword {kind : Kind} {word : Token} {arguments : List Written}
    (occurs : Occurs root place (.node kind (.leaf word :: arguments)))
    (isWord : word.kind = .directiveKw) :
    ∃ keyword, View.Directive.keyword? place = some keyword ∧
      keyword.bytes root.bytes = word.text ∧
        keyword.span = ⟨place.start, place.start + word.length⟩ := by
  obtain ⟨behind, split, -⟩ := occurs.children_cons
  have occursAs : Occurs root place (.node kind ([] ++ .leaf word :: arguments)) := occurs
  have occursIn : Occurs root (part kind place.above [] (.leaf word) arguments) (.leaf word) :=
    .child occursAs
  refine ⟨part kind place.above [] (.leaf word) arguments, ?_, ?_, ?_⟩
  · have isToken : (part kind place.above [] (.leaf word) arguments).isToken = true :=
      occursIn.isToken
    have isKeyword : (part kind place.above [] (.leaf word) arguments).kind = .directiveKw :=
      occursIn.kind.trans isWord
    rw [View.Directive.keyword?, tokenOf?, tokenChildren, split, List.filter_cons,
      if_pos isToken, List.find?_cons, isKeyword]
    rfl
  · rw [occursIn.bytes]
    simp [Written.bytes, Written.tokens]
  · rw [span, occursIn.length, start_part]
    simp [Written.bytes, Written.tokens, allTokens, Token.totalLength, start, Token.length]

theorem Occurs.role?_eq {kind : Kind} {word : Token} {arguments : List Written}
    {command : Directive} (occurs : Occurs root place (.node kind (.leaf word :: arguments)))
    (isWord : word.kind = .directiveKw) (listed : dialect.directive? word.text = some command) :
    View.Directive.role? dialect root.bytes place = some command.role := by
  obtain ⟨keyword, isKeyword, bytes, -⟩ := occurs.exists_keyword isWord
  rw [View.Directive.role?, isKeyword, Option.bind_some, bytes, listed]
  rfl

theorem Occurs.statement? {kind : Kind} {lead parts trail : List Written}
    (occurs : Occurs root place (.node kind (lead ++ .node .directive parts :: trail)))
    (aside : ∀ child ∈ lead, child.Among Kind.standsAside) :
    View.Line.statement? place =
      some (part kind place.above lead (.node .directive parts) trail) := by
  obtain ⟨before, behind, split, early, -⟩ := occurs.children_split
  have none : ∀ child ∈ before.filter Place.isNode,
      ¬ (View.StatementForm.ofKind? child.kind).isSome = true := by
    intro child member
    obtain ⟨childIn, isNode⟩ := List.mem_filter.mp member
    obtain ⟨written, writtenIn, occursIn⟩ := exists_occurs_of_mem early childIn
    rw [occursIn.kind]
    rw [occursIn.isNode] at isNode
    rcases aside written writtenIn with isToken | isAside
    · rw [isToken] at isNode
      contradiction
    · revert isAside
      cases written.kind <;> decide
  rw [View.Line.statement?, nodeOf?, nodes, split, List.filter_append, List.find?_append,
    List.find?_eq_none.mpr none, Option.none_or, List.filter_cons]
  rfl

theorem Occurs.exists_commands {children lead parts trail : List Written}
    (occurs : Occurs root place (.node .line children))
    (shape : LineShape dialect block? 0 children edge?)
    (split : children = lead ++ .node .directive parts :: trail) :
    ∃ keyword command,
      View.Line.Commands dialect root.bytes place
          (part .line place.above lead (.node .directive parts) trail) keyword command.role ∧
        Statement.misplaced? block? command = none ∧
          ∃ span, edge? = Statement.edge? span command.role ∧
            keyword.span = span.shift place.start := by
  subst split
  obtain ⟨word, arguments, command, rfl, aside, isWord, listed, inPlace, rfl⟩ :=
    shape.of_directive
  have directive := Occurs.child occurs
  obtain ⟨keyword, isKeyword, -, span⟩ := directive.exists_keyword isWord
  refine ⟨keyword, command, ⟨occurs.kind, occurs.statement? aside, directive.kind, isKeyword,
    directive.role?_eq isWord listed⟩, inPlace, _, rfl, ?_⟩
  rw [span, start_part]
  simp only [Span.shift, Nat.zero_add, start]
  congr 1
  · omega
  · omega

theorem Occurs.exists_commands_of_edge {effect : BlockEdge}
    (occurs : Occurs root place line)
    (lineWith : LineWith dialect block? (some effect) line) :
    ∃ directive keyword command,
      View.Line.Commands dialect root.bytes place directive keyword command.role ∧
        Statement.misplaced? block? command = none ∧
          ∃ span, some effect = Statement.edge? span command.role ∧
            keyword.span = span.shift place.start := by
  obtain ⟨children, rfl, -, shape⟩ := lineWith
  obtain ⟨lead, parts, trail, split⟩ := shape.exists_directive
  obtain ⟨keyword, command, rest⟩ := occurs.exists_commands shape split
  exact ⟨_, keyword, command, rest⟩

theorem Occurs.commands_opens {block : BlockKind} {keyword : Span}
    (occurs : Occurs root place line)
    (lineWith : LineWith dialect block? (some (.opens block keyword)) line) :
    ∃ directive word,
      View.Line.Commands dialect root.bytes place directive word (.opens block) ∧
        word.span = keyword.shift place.start := by
  obtain ⟨directive, word, command, commands, -, span, edge, place⟩ :=
    occurs.exists_commands_of_edge lineWith
  obtain ⟨role, rfl⟩ := Statement.edge?_eq_opens edge
  rw [role] at commands
  exact ⟨directive, word, commands, place⟩

theorem Occurs.commands_closes {block : BlockKind} (occurs : Occurs root place line)
    (lineWith : LineWith dialect (some block) (some .closes) line) :
    ∃ directive word,
      View.Line.Commands dialect root.bytes place directive word (.closes block) := by
  obtain ⟨directive, word, command, commands, inPlace, span, edge, -⟩ :=
    occurs.exists_commands_of_edge lineWith
  obtain ⟨closed, role⟩ := Statement.edge?_eq_closes edge
  obtain rfl := Option.some.inj (Statement.innermost_of_closes role inPlace)
  rw [role] at commands
  exact ⟨directive, word, commands⟩

theorem Occurs.commands_of_directive? {directive : Place}
    (occurs : Occurs root place line) (lineWith : LineWith dialect block? edge? line)
    (found : View.Line.directive? place = some directive) :
    ∃ keyword command span,
      View.Line.Commands dialect root.bytes place directive keyword command.role ∧
        Statement.misplaced? block? command = none ∧
          edge? = Statement.edge? span command.role := by
  obtain ⟨children, rfl, -, shape⟩ := lineWith
  obtain ⟨statement, isDirective⟩ := Option.filter_eq_some_iff.mp found
  have first := statement
  rw [View.Line.statement?, nodeOf?] at first
  obtain ⟨childIn, isNode⟩ := List.mem_filter.mp (List.mem_of_find?_eq_some first)
  obtain ⟨written, writtenIn, occursIn⟩ := exists_occurs_of_mem occurs.forall₂_children childIn
  rw [occursIn.kind, beq_iff_eq] at isDirective
  rw [occursIn.isNode] at isNode
  cases written with
  | leaf => contradiction
  | node kind parts =>
      obtain rfl : kind = .directive := isDirective
      obtain ⟨lead, trail, split⟩ := List.append_of_mem writtenIn
      obtain ⟨keyword, command, here, inPlace, span, edge, -⟩ :=
        occurs.exists_commands shape split
      obtain rfl := Option.some.inj (here.statement.symm.trans statement)
      exact ⟨keyword, command, span, here, inPlace, edge⟩

end Place

namespace View.Line.Commands

variable {dialect : Dialect} {source : Bytes} {line directive keyword : Place}
  {role : BlockRole}

theorem directive? (commands : Commands dialect source line directive keyword role) :
    Line.directive? line = some directive := by
  rw [Line.directive?, commands.statement, Option.filter_some, commands.isDirective]
  rfl

theorem isCloser (commands : Commands dialect source line directive keyword role) :
    Block.isCloser (keyword.lowerBytes source) = role.isCloses := by
  have spelled := commands.role
  rw [Directive.role?, commands.keyword, Option.bind_some] at spelled
  obtain ⟨command, listed, rfl⟩ := Option.map_eq_some_iff.mp spelled
  exact Dialect.isCloser_lower listed

theorem edge? {root written : Written} {block? : Option BlockKind} {edge? : Option BlockEdge}
    (commands : Commands dialect root.bytes line directive keyword role)
    (occurs : Occurs root line written) (lineWith : LineWith dialect block? edge? written) :
    ∃ command span, command.role = role ∧ Statement.misplaced? block? command = none ∧
      edge? = Statement.edge? span role := by
  obtain ⟨_, command, span, here, inPlace, edge⟩ :=
    occurs.commands_of_directive? lineWith commands.directive?
  obtain rfl := Option.some.inj (here.role.symm.trans commands.role)
  exact ⟨command, span, rfl, inPlace, edge⟩

end View.Line.Commands

end Asm6502
