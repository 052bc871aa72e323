import Asm6502.Proofs.BlockReports
import Asm6502.Proofs.LineContexts

/-!
# Block structure

Opening and closing commands match like brackets.  A block begins with the line whose
command opens it, and it ends with the first command in it that closes it; commands
out of place are errors and no commands.  Each block in which the text ends is
reported once, at the word that opened it.
-/

namespace Asm6502

open List (Forall₂)
open Written Place

namespace View.Block

/-- A block begins with the line whose command opens it. -/
structure OpenedBy (dialect : Dialect) (source : Bytes)
    (block line directive keyword : Place) (opened : BlockKind) : Prop where
  isNode : block.isNode = true
  nodeKind : block.kind = opened.nodeKind
  first : block.children.head? = some line
  commands : Line.Commands dialect source line directive keyword (.opens opened)

/-- A block ends with the line whose command closes it. -/
structure ClosedBy (dialect : Dialect) (source : Bytes)
    (block line directive keyword : Place) (closed : BlockKind) : Prop where
  last : block.children.getLast? = some line
  commands : Line.Commands dialect source line directive keyword (.closes closed)

def isUnterminated (source : Bytes) (place : Place) : Bool :=
  place.isNode && place.kind.isBlock && !isTerminated source place

/-- A diagnostic that asks for the closing command of a block, at the word that
opened it. -/
def Reports (dialect : Dialect) (source : Bytes) (diagnostic : Diagnostic)
    (block : Place) : Prop :=
  ∃ line directive keyword opened,
    OpenedBy dialect source block line directive keyword opened ∧
      diagnostic = unterminated opened keyword.span

end View.Block

variable {dialect : Dialect} {written line : Written} {children lead trail : List Written}

namespace Place

variable {root : Written} {place : Place} {kind : Kind} {block : BlockKind}

theorem Occurs.openedBy {block? : Option BlockKind} {span : Span} {opener : Written}
    {rest : List Written}
    (occurs : Occurs root place (.node block.nodeKind (opener :: rest)))
    (opens : LineWith dialect block? (some (.opens block span)) opener) :
    ∃ line directive keyword,
      View.Block.OpenedBy dialect root.bytes place line directive keyword block ∧
        keyword.span = span.shift place.start := by
  have first := occurs.head?_children
  have occursAs : Occurs root place (.node block.nodeKind ([] ++ opener :: rest)) := occurs
  obtain ⟨directive, keyword, commands, keywordSpan⟩ := (Occurs.child occursAs).commands_opens opens
  refine ⟨_, directive, keyword, ⟨by rw [occurs.isNode]; rfl, occurs.kind, first, commands⟩, ?_⟩
  rw [keywordSpan, start_part]
  rfl

theorem Occurs.closedBy {closer : Written}
    (occurs : Occurs root place (.node block.nodeKind (lead ++ [closer])))
    (closes : LineWith dialect (some block) (some .closes) closer) :
    ∃ line directive keyword,
      View.Block.ClosedBy dialect root.bytes place line directive keyword block := by
  obtain ⟨directive, keyword, commands⟩ := (Occurs.child occurs).commands_closes closes
  exact ⟨_, directive, keyword, occurs.getLast?_children, commands⟩

theorem not_closes_of_opens {block? : Option BlockKind} {opened closed : BlockKind}
    {span : Span} {directive keyword : Place} (occurs : Occurs root place line)
    (opens : LineWith dialect block? (some (.opens opened span)) line) :
    ¬ View.Line.Commands dialect root.bytes place directive keyword (.closes closed) := by
  intro commands
  obtain ⟨_, _, -, -, edge⟩ := commands.edge? occurs opens
  have role := (Statement.edge?_eq_opens edge).1
  contradiction

theorem Occurs.not_closedBy {block? : Option BlockKind} {span : Span} {opener : Written}
    {body tail : List Written} {start : Nat} {reports : List Diagnostic}
    {last directive keyword : Place} {closed : BlockKind}
    (occurs : Occurs root place (.node kind (opener :: (body ++ tail))))
    (opens : LineWith dialect block? (some (.opens block span)) opener)
    (inside : ∀ part ∈ body, Section dialect (some block) part)
    (ending : Ending dialect (some block) start tail reports) :
    ¬ View.Block.ClosedBy dialect root.bytes place last directive keyword closed := by
  rintro ⟨isLast, commands⟩
  obtain ⟨written, writtenLast, occursLast⟩ :=
    exists_occurs_getLast? occurs.forall₂_children isLast
  have isLine : written.kind = .line := occursLast.kind.symm.trans commands.isLine
  have cases : written = opener ∨ written ∈ body ∨ written ∈ tail := by
    simpa [Written.children] using List.mem_of_getLast? writtenLast
  rcases cases with rfl | inBody | inTail
  · exact not_closes_of_opens occursLast opens commands
  · cases inside written inBody with
    | line lineWith =>
        obtain ⟨_, _, -, -, edge⟩ := commands.edge? occursLast lineWith
        contradiction
    | block => exact BlockKind.nodeKind_ne_line _ isLine
  · obtain ⟨other, children, rfl⟩ := ending.eq_block inTail
    exact BlockKind.nodeKind_ne_line other isLine

theorem Occurs.nodes_eq (occurs : Occurs root place written)
    (bracketed : Bracketed dialect block written) : place.nodes = place.children := by
  rw [nodes, List.filter_eq_self]
  intro child childIn
  obtain ⟨part, partIn, occursIn⟩ := exists_occurs_of_mem occurs.forall₂_children childIn
  cases written with
  | leaf => contradiction
  | node kind children =>
      rw [occursIn.isNode, (bracketed.isOuter part partIn).1]
      rfl

theorem Occurs.isTerminated {block? : Option BlockKind} {span : Span}
    {opener closer : Written} {body : List Written}
    (occurs : Occurs root place (.node block.nodeKind (opener :: (body ++ [closer]))))
    (opens : LineWith dialect block? (some (.opens block span)) opener)
    (inside : ∀ part ∈ body, Section dialect (some block) part)
    (closes : LineWith dialect (some block) (some .closes) closer) :
    View.Block.isTerminated root.bytes place = true := by
  have nodes := occurs.nodes_eq (.intro opens inside (.closer closes))
  have occursAs : Occurs root place (.node block.nodeKind ((opener :: body) ++ [closer])) := occurs
  have first := occurs.head?_children
  have last := occursAs.getLast?_children
  obtain ⟨directive, keyword, commands⟩ := (Occurs.child occursAs).commands_closes closes
  have isLine : (part block.nodeKind place.above [] opener (body ++ [closer])).kind = .line := by
    rw [part, Place.kind, kind_tree]
    exact opens.kind
  have opener? : View.Block.opener? place =
      some (part block.nodeKind place.above [] opener (body ++ [closer])) := by
    rw [View.Block.opener?, nodes, first, Option.filter_some, isLine]
    rfl
  have behind : (part block.nodeKind place.above (opener :: body) closer []).index ≠
      (part block.nodeKind place.above [] opener (body ++ [closer])).index := by
    simp [part, index]
  have closes' : View.Block.isCloser (keyword.lowerBytes root.bytes) = true := commands.isCloser
  rw [View.Block.isTerminated, View.Block.closer?, nodes, last, opener?]
  simp [commands.directive?, commands.keyword, commands.isLine, behind, closes']

theorem Occurs.exists_closedBy (occurs : Occurs root place written)
    (bracketed : Bracketed dialect block written) (start : Standing dialect root)
    (isRoot : root.kind = .sourceFile)
    (isTerminated : View.Block.isTerminated root.bytes place = true) :
    ∃ line directive keyword closed,
      View.Block.ClosedBy dialect root.bytes place line directive keyword closed := by
  -- A closing line is looked for by the spelling of its word, which for a command in
  -- place tells the role.
  obtain ⟨line, found⟩ := Option.isSome_iff_exists.mp isTerminated
  simp only [View.Block.closer?, occurs.nodes_eq bracketed, bind, Option.bind_eq_some_iff,
    Option.ite_none_right_eq_some, Bool.and_eq_true, beq_iff_eq] at found
  obtain ⟨line, isLast, -, -, keyword, ⟨directive, isDirective, isKeyword⟩,
    ⟨⟨isLine, -⟩, isCloser⟩, -⟩ := found
  obtain ⟨part, partLast, occursLast⟩ :=
    exists_occurs_getLast? occurs.forall₂_children isLast
  have isNode : part.isToken = false := by
    cases written with
    | leaf => contradiction
    | node => exact (bracketed.isOuter part (List.mem_of_getLast? partLast)).1
  obtain ⟨block?, edge?, lineWith⟩ :=
    (occursLast.lineContext start isRoot isNode (occursLast.kind.symm.trans isLine)).lineWith
  obtain ⟨_, command, _, commands, -, -⟩ :=
    occursLast.commands_of_directive? lineWith isDirective
  obtain rfl := Option.some.inj (commands.keyword.symm.trans isKeyword)
  have closes : command.role.isCloses = true := commands.isCloser.symm.trans isCloser
  cases role : command.role with
  | closes closed =>
      rw [role] at commands
      exact ⟨line, directive, _, closed, isLast, commands⟩
  | _ =>
      rw [role] at closes
      contradiction

theorem Occurs.exists_openedBy (occurs : Occurs root place written)
    (bracketed : Bracketed dialect block written) :
    ∃ line directive keyword,
      View.Block.OpenedBy dialect root.bytes place line directive keyword block := by
  cases bracketed with
  | intro opens =>
      obtain ⟨line, directive, keyword, openedBy, -⟩ := occurs.openedBy opens
      exact ⟨line, directive, keyword, openedBy⟩

/-- A block is terminated just when a command has closed it that fits its opening
command. -/
theorem Occurs.isTerminated_iff (occurs : Occurs root place written)
    (bracketed : Bracketed dialect block written) (start : Standing dialect root)
    (isRoot : root.kind = .sourceFile) :
    View.Block.isTerminated root.bytes place = true ↔
      ∃ matched,
        (∃ line directive keyword,
          View.Block.OpenedBy dialect root.bytes place line directive keyword matched) ∧
        ∃ line directive keyword,
          View.Block.ClosedBy dialect root.bytes place line directive keyword matched := by
  have opened := occurs.exists_openedBy bracketed
  constructor
  · intro isTerminated
    obtain ⟨line, directive, keyword, closed, closedBy⟩ :=
      occurs.exists_closedBy bracketed start isRoot isTerminated
    cases bracketed with
    | @intro _ _ _ opener body _ opens inside remainder =>
        cases remainder with
        | closer closes =>
            have occursAs : Occurs root place
                (.node block.nodeKind ((opener :: body) ++ [_])) := occurs
            exact ⟨block, opened, occursAs.closedBy closes⟩
        | ending ending => exact absurd closedBy (occurs.not_closedBy opens inside ending)
  · rintro ⟨matched, -, line, directive, keyword, closedBy⟩
    cases bracketed with
    | intro opens inside remainder =>
        cases remainder with
        | closer closes => exact occurs.isTerminated opens inside closes
        | ending ending => exact absurd closedBy (occurs.not_closedBy opens inside ending)

section

variable {directive : Place}

theorem Occurs.block_of_opens {opened : BlockKind} (occurs : Occurs root directive written)
    (start : Standing dialect root) (isRoot : root.kind = .sourceFile)
    (isNode : written.isToken = false) (isDirective : written.kind = .directive)
    (role : View.Directive.role? dialect root.bytes directive = some (.opens opened)) :
    ∃ block ∈ preorder ⟨root.tree, []⟩, ∃ line keyword,
      View.Block.OpenedBy dialect root.bytes block line directive keyword opened := by
  obtain ⟨line, whole, keyword, occursLine, context, commands⟩ :=
    occurs.line_of_directive start isRoot isNode isDirective role (by simp)
  cases context with
  | outside lineWith =>
      obtain ⟨_, _, -, -, edge⟩ := commands.edge? occursLine lineWith
      contradiction
  | opening above bracketed first lineWith =>
      obtain ⟨_, _, -, -, edge⟩ := commands.edge? occursLine lineWith
      obtain rfl := BlockRole.opens.inj (Statement.edge?_eq_opens edge).1
      obtain ⟨_, _, _, openedBy⟩ := above.exists_openedBy bracketed
      exact ⟨_, above.mem_preorder, line, keyword,
        openedBy.isNode, openedBy.nodeKind, first, commands⟩
  | inside _ _ _ lineWith =>
      obtain ⟨_, _, -, -, edge⟩ := commands.edge? occursLine lineWith
      contradiction
  | closing _ _ _ lineWith =>
      obtain ⟨_, _, -, -, edge⟩ := commands.edge? occursLine lineWith
      simp [Statement.edge?] at edge

theorem Occurs.block_of_closes {closed : BlockKind} (occurs : Occurs root directive written)
    (start : Standing dialect root) (isRoot : root.kind = .sourceFile)
    (isNode : written.isToken = false) (isDirective : written.kind = .directive)
    (role : View.Directive.role? dialect root.bytes directive = some (.closes closed)) :
    ∃ block ∈ preorder ⟨root.tree, []⟩,
      (∃ line opening keyword,
        View.Block.OpenedBy dialect root.bytes block line opening keyword closed) ∧
      ∃ line keyword,
        View.Block.ClosedBy dialect root.bytes block line directive keyword closed := by
  obtain ⟨line, whole, keyword, occursLine, context, commands⟩ :=
    occurs.line_of_directive start isRoot isNode isDirective role (by simp)
  cases context with
  | outside lineWith =>
      obtain ⟨_, _, -, -, edge⟩ := commands.edge? occursLine lineWith
      contradiction
  | opening _ _ _ lineWith =>
      exact absurd commands (not_closes_of_opens occursLine lineWith)
  | inside _ _ _ lineWith =>
      obtain ⟨_, _, -, -, edge⟩ := commands.edge? occursLine lineWith
      contradiction
  | @closing above whole block occursAbove bracketed last lineWith =>
      obtain ⟨command, _, isCloser, inPlace, -⟩ := commands.edge? occursLine lineWith
      obtain rfl := Option.some.inj (Statement.innermost_of_closes isCloser inPlace)
      exact ⟨above, occursAbove.mem_preorder, occursAbove.exists_openedBy bracketed,
        line, keyword, last, commands⟩

theorem Occurs.block_of_branch (occurs : Occurs root directive written)
    (start : Standing dialect root) (isRoot : root.kind = .sourceFile)
    (isNode : written.isToken = false) (isDirective : written.kind = .directive)
    (role : View.Directive.role? dialect root.bytes directive = some .branch) :
    ∃ block ∈ preorder ⟨root.tree, []⟩, block.kind = .conditional ∧
      ∃ line ∈ block.children, ∃ keyword,
        View.Line.Commands dialect root.bytes line directive keyword .branch := by
  obtain ⟨line, whole, keyword, occursLine, context, commands⟩ :=
    occurs.line_of_directive start isRoot isNode isDirective role (by simp)
  have inConditional {block? : Option BlockKind} {edge? : Option BlockEdge}
      (lineWith : LineWith dialect block? edge? whole) : block? = some .conditional := by
    obtain ⟨command, _, divides, inPlace, -⟩ := commands.edge? occursLine lineWith
    exact Statement.innermost_of_branch divides inPlace
  cases context with
  | outside lineWith => exact absurd (inConditional lineWith) (by simp)
  | opening _ _ _ lineWith =>
      obtain ⟨_, _, -, -, edge⟩ := commands.edge? occursLine lineWith
      contradiction
  | @inside above whole block occursAbove bracketed member lineWith =>
      obtain rfl := Option.some.inj (inConditional lineWith)
      refine ⟨above, occursAbove.mem_preorder, ?_, line, member, keyword, commands⟩
      rw [occursAbove.kind, bracketed.kind]
      rfl
  | closing _ _ _ lineWith =>
      obtain ⟨_, _, -, -, edge⟩ := commands.edge? occursLine lineWith
      contradiction

end

theorem Occurs.isUnterminated_eq_false (occurs : Occurs root place written)
    (closed : Closed dialect written) :
    View.Block.isUnterminated root.bytes place = false := by
  have notBlock (other : written.kind.isBlock = false) :
      View.Block.isUnterminated root.bytes place = false := by
    rw [View.Block.isUnterminated, occurs.kind, other, Bool.and_false, Bool.false_and]
  have isLine {block? : Option BlockKind} {edge? : Option BlockEdge}
      (lineWith : LineWith dialect block? edge? written) :
      View.Block.isUnterminated root.bytes place = false :=
    notBlock (by rw [lineWith.kind]; rfl)
  cases closed with
  | line lineWith => exact isLine lineWith
  | part shape =>
      cases shape with
      | line lineWith => exact isLine lineWith
      | block opens inside closes =>
          rw [View.Block.isUnterminated, occurs.isTerminated opens inside closes,
            Bool.not_true, Bool.and_false]
  | inline _ inner =>
      cases written with
      | leaf =>
          rw [View.Block.isUnterminated, occurs.isNode]
          rfl
      | node kind children =>
          refine notBlock ?_
          cases isBlock : kind.isBlock with
          | false => exact isBlock
          | true => exact (inner.false_of_isOuter (Kind.isOuter_of_isBlock isBlock)).elim

theorem Occurs.isUnterminated_eq_true {block? : Option BlockKind} {span : Span}
    {opener : Written} {body tail : List Written} {offset : Nat} {reports : List Diagnostic}
    (occurs : Occurs root place (.node block.nodeKind (opener :: (body ++ tail))))
    (opens : LineWith dialect block? (some (.opens block span)) opener)
    (inside : ∀ part ∈ body, Section dialect (some block) part)
    (ending : Ending dialect (some block) offset tail reports)
    (start : Standing dialect root) (isRoot : root.kind = .sourceFile) :
    View.Block.isUnterminated root.bytes place = true := by
  have notTerminated : View.Block.isTerminated root.bytes place = false := by
    by_contra isTerminated
    obtain ⟨line, directive, keyword, closed, closedBy⟩ :=
      occurs.exists_closedBy (.intro opens inside (.ending ending)) start isRoot
        (Bool.of_not_eq_false isTerminated)
    exact occurs.not_closedBy opens inside ending closedBy
  have isBlock : (Written.node block.nodeKind (opener :: (body ++ tail))).kind.isBlock = true :=
    BlockKind.isBlock_nodeKind block
  rw [View.Block.isUnterminated, notTerminated, occurs.isNode, occurs.kind, isBlock]
  rfl

theorem Occurs.filter_preorder_eq_nil (occurs : Occurs root place written)
    (closed : Closed dialect written) :
    place.preorder.filter (View.Block.isUnterminated root.bytes) = [] := by
  rw [List.filter_eq_nil_iff]
  have below := forall_mem_preorder
    (motive := fun place => ∃ written, Occurs root place written ∧ Closed dialect written)
    (by
      rintro place ⟨written, occurs, closed⟩ child childIn
      obtain ⟨part, partIn, occursIn⟩ := exists_occurs_of_mem occurs.forall₂_children childIn
      exact ⟨part, occursIn, closed.child partIn⟩)
    ⟨written, occurs, closed⟩
  intro other member
  obtain ⟨part, occursOther, closedOther⟩ := below other member
  simp [occursOther.isUnterminated_eq_false closedOther]

theorem filter_flatMap_preorder_eq_nil {places : List Place} {parts : List Written}
    (occur : Forall₂ (Occurs root) places parts) (closed : ∀ part ∈ parts, Closed dialect part) :
    (places.flatMap preorder).filter (View.Block.isUnterminated root.bytes) = [] := by
  rw [List.filter_flatMap, List.flatMap_eq_nil_iff]
  intro child member
  obtain ⟨part, partIn, occurs⟩ := exists_occurs_of_mem occur member
  exact occurs.filter_preorder_eq_nil (closed part partIn)

end Place

/-- The reports at the end of a text are those of the blocks without closing line, in
their order. -/
theorem Ending.forall₂_reports {root : Written} {place : Place} {kind : Kind}
    {block? : Option BlockKind} {start : Nat} {tail closed : List Written}
    {reports : List Diagnostic}
    (ending : Ending dialect block? start tail reports)
    (occurs : Occurs root place (.node kind (closed ++ tail)))
    (isClosed : ∀ part ∈ closed, Closed dialect part)
    (starts : start = place.start + Token.totalLength (allTokens closed))
    (standing : Standing dialect root) (isRoot : root.kind = .sourceFile) :
    Forall₂ (View.Block.Reports dialect root.bytes) reports
      ((place.children.flatMap preorder).filter
        (View.Block.isUnterminated root.bytes)) := by
  -- An unclosed block is the last child of the one around it: its report comes first,
  -- then those of the blocks below.
  induction ending generalizing place kind closed with
  | closed =>
      rw [List.append_nil] at occurs
      rw [filter_flatMap_preorder_eq_nil occurs.forall₂_children isClosed]
      exact .nil
  | @unclosed block? start block keyword opener body tail reports opens early inside ending ih =>
      obtain ⟨before, behind, split, earlier, late⟩ := occurs.children_split
      cases late
      have below := Occurs.child occurs
      generalize isChild : part kind place.above closed
        (.node block.nodeKind (opener :: (body ++ tail))) [] = child at split below
      have childStart : child.start = start := by
        rw [← isChild, start_part, starts]
        rfl
      have isOpen : View.Block.isUnterminated root.bytes child = true :=
        below.isUnterminated_eq_true opens inside ending standing isRoot
      have belowAs : Occurs root child (.node block.nodeKind ((opener :: body) ++ tail)) := below
      have inner := ih belowAs
        (by
          intro part member
          rcases List.mem_cons.mp member with rfl | inBody
          · exact .line opens
          · exact .part (inside part inBody))
        (by rw [childStart])
      obtain ⟨line, directive, word, openedBy, span⟩ := below.openedBy opens
      rw [split, List.flatMap_append, List.filter_append,
        filter_flatMap_preorder_eq_nil earlier isClosed, List.nil_append, List.flatMap_singleton,
        preorder_eq_cons, List.filter_cons, if_pos isOpen]
      refine .cons ⟨line, directive, word, block, openedBy, ?_⟩ inner
      rw [span, childStart]

namespace Parse

/-- Blocks, commands and reports of a parse match like brackets. -/
structure MatchesBlocks (dialect : Dialect) (text : Bytes) (parse : Parse) : Prop where
  opened : ∀ block ∈ parse.places, block.isNode = true →
    block.kind.isBlock = true →
      ∃ line directive keyword opened,
        View.Block.OpenedBy dialect text block line directive keyword opened
  opens : ∀ directive ∈ parse.places, directive.isNode = true →
    directive.kind = .directive → ∀ opened,
      View.Directive.role? dialect text directive = some (.opens opened) →
        ∃ block ∈ parse.places, ∃ line keyword,
          View.Block.OpenedBy dialect text block line directive keyword opened
  closes : ∀ directive ∈ parse.places, directive.isNode = true →
    directive.kind = .directive → ∀ closed,
      View.Directive.role? dialect text directive = some (.closes closed) →
        ∃ block ∈ parse.places,
          (∃ line opening keyword,
            View.Block.OpenedBy dialect text block line opening keyword closed) ∧
          ∃ line keyword, View.Block.ClosedBy dialect text block line directive keyword closed
  branches : ∀ directive ∈ parse.places, directive.isNode = true →
    directive.kind = .directive →
      View.Directive.role? dialect text directive = some .branch →
        ∃ block ∈ parse.places, block.kind = .conditional ∧
          ∃ line ∈ block.children, ∃ keyword,
            View.Line.Commands dialect text line directive keyword .branch
  terminated : ∀ block ∈ parse.places, block.isNode = true →
    block.kind.isBlock = true →
      (View.Block.isTerminated text block = true ↔
        ∃ matched,
          (∃ line directive keyword,
            View.Block.OpenedBy dialect text block line directive keyword matched) ∧
          ∃ line directive keyword,
            View.Block.ClosedBy dialect text block line directive keyword matched)
  reported :
    List.Forall₂ (View.Block.Reports dialect text)
      (parse.diagnostics.filter fun diagnostic => diagnostic.IsUnterminated)
      (parse.places.filter (View.Block.isUnterminated text))

section

variable {text : Bytes} {parse : Parse} {settled tail : List Written}
  {reports : List Diagnostic} {place : Place}

theorem WrittenAs.exists_occurs (writtenAs : WrittenAs dialect text parse settled tail reports)
    (member : place ∈ parse.places) (isNode : place.isNode = true) :
    ∃ written, Occurs (.node .sourceFile (settled ++ tail)) place written ∧
      written.isToken = false ∧ place.kind = written.kind := by
  rw [places, writtenAs.root] at member
  obtain ⟨written, occurs⟩ := exists_occurs_of_mem_preorder member
  rw [occurs.isNode, Bool.not_eq_true'] at isNode
  exact ⟨written, occurs, isNode, occurs.kind⟩

theorem WrittenAs.exists_bracketed
    (writtenAs : WrittenAs dialect text parse settled tail reports)
    (member : place ∈ parse.places) (isNode : place.isNode = true)
    (isBlock : place.kind.isBlock = true) :
    ∃ written block, Occurs (.node .sourceFile (settled ++ tail)) place written ∧
      Bracketed dialect block written := by
  obtain ⟨written, occurs, isNode, kind⟩ := writtenAs.exists_occurs member isNode
  rw [kind] at isBlock
  have outer := (occurs.standing writtenAs.standing).outer
    ⟨isNode, Kind.isOuter_of_isBlock isBlock⟩
  obtain ⟨block, bracketed⟩ := outer.bracketed isBlock
  exact ⟨written, block, occurs, bracketed⟩

theorem WrittenAs.matchesBlocks
    (writtenAs : WrittenAs dialect text parse settled tail reports) :
    parse.MatchesBlocks dialect text := by
  have start := writtenAs.standing
  have isRoot : (Written.node .sourceFile (settled ++ tail)).kind = .sourceFile := rfl
  have places : parse.places =
      Place.preorder ⟨(Written.node .sourceFile (settled ++ tail)).tree, []⟩ := by
    rw [Parse.places, writtenAs.root]
  obtain rfl := writtenAs.bytes
  constructor
  case opened =>
    intro block member isNode isBlock
    obtain ⟨written, opened, occurs, bracketed⟩ :=
      writtenAs.exists_bracketed member isNode isBlock
    obtain ⟨line, directive, keyword, openedBy⟩ := occurs.exists_openedBy bracketed
    exact ⟨line, directive, keyword, opened, openedBy⟩
  case opens =>
    intro directive member isNode isDirective opened role
    obtain ⟨written, occurs, isNode, kind⟩ := writtenAs.exists_occurs member isNode
    rw [places]
    exact occurs.block_of_opens start isRoot isNode (kind ▸ isDirective) role
  case closes =>
    intro directive member isNode isDirective closed role
    obtain ⟨written, occurs, isNode, kind⟩ := writtenAs.exists_occurs member isNode
    rw [places]
    exact occurs.block_of_closes start isRoot isNode (kind ▸ isDirective) role
  case branches =>
    intro directive member isNode isDirective role
    obtain ⟨written, occurs, isNode, kind⟩ := writtenAs.exists_occurs member isNode
    rw [places]
    exact occurs.block_of_branch start isRoot isNode (kind ▸ isDirective) role
  case terminated =>
    intro block member isNode isBlock
    obtain ⟨written, opened, occurs, bracketed⟩ :=
      writtenAs.exists_bracketed member isNode isBlock
    exact occurs.isTerminated_iff bracketed start isRoot
  case reported =>
    have top : Occurs (.node .sourceFile (settled ++ tail)) _ _ := .root
    have rootClosed : View.Block.isUnterminated
        (Written.node .sourceFile (settled ++ tail)).bytes
        ⟨(Written.node .sourceFile (settled ++ tail)).tree, []⟩ = false := rfl
    rw [writtenAs.filter_diagnostics, places, Place.preorder_eq_cons, List.filter_cons,
      rootClosed]
    exact writtenAs.ending.forall₂_reports top
      (fun part member => .part (writtenAs.sections part member))
      (Nat.zero_add _).symm start isRoot

end

/-- A text that is too long has no blocks and no reports of any. -/
theorem matchesBlocks_rejected (dialect : Dialect) (text : Bytes) (error : InputTooLarge) :
    (rejected error).MatchesBlocks dialect text := by
  have notBlock {place : Place} (member : place ∈ (rejected error).places)
      (isBlock : place.kind.isBlock = true) : False := by
    rw [kind_of_mem_places_rejected member] at isBlock
    contradiction
  have notDirective {place : Place} (member : place ∈ (rejected error).places)
      (isDirective : place.kind = .directive) : False := by
    rw [kind_of_mem_places_rejected member] at isDirective
    contradiction
  exact
    { opened := fun _ member _ isBlock => (notBlock member isBlock).elim
      opens := fun _ member _ isDirective => (notDirective member isDirective).elim
      closes := fun _ member _ isDirective => (notDirective member isDirective).elim
      branches := fun _ member _ isDirective => (notDirective member isDirective).elim
      terminated := fun _ member _ isBlock => (notBlock member isBlock).elim
      reported := by
        have silent : (rejected error).diagnostics.filter
            (fun diagnostic => diagnostic.IsUnterminated) = [] :=
          List.filter_eq_nil_iff.mpr fun _ member => by
            simpa using Diagnostic.not_isUnterminated_of_mem_rejected member
        rw [silent, places_rejected, List.filter_singleton]
        exact .nil }

/-- Block structure is the matching of opening and closing commands, whatever the
text is. -/
theorem ofText_matchesBlocks (dialect : Dialect) (text : Bytes) :
    (ofText dialect text).MatchesBlocks dialect text := by
  rcases ofText_cases dialect text with ⟨-, read⟩ | ⟨-, refused⟩
  · obtain ⟨settled, tail, reports, writtenAs⟩ := exists_writtenAs dialect text
    rw [read]
    exact writtenAs.matchesBlocks
  · rw [refused]
    exact matchesBlocks_rejected dialect text _

end Parse

end Asm6502
