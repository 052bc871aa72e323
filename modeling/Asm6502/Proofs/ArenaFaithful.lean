import Asm6502.Proofs.ArenaWalks

/-!
# Arenas describe their trees

The arena of a tree says all there is to say about it: read from the root down it is
the tree with absolute spans, every step up, down or aside is undone by the step
back, and the tokens of a node are the leaves below it.  Only the last token below a
node is not always told: where no token stands before the end of the node, the
question is refused instead of answered with none.
-/

namespace Asm6502

open Place (preorder)

namespace Arena

mutual

/-- An element and all below it are a tree that starts at an offset. -/
inductive Unfolds (arena : Arena) : Handle → (start : Nat) → Tree → Prop
  | token {number start length : Nat} {kind : Kind} :
      arena.kind (.token number) = kind →
      arena.span (.token number) = ⟨start, start + length⟩ →
        Unfolds arena (.token number) start (.token kind length)
  | node {number start : Nat} {kind : Kind} {trees : List Tree} :
      arena.kind (.node number) = kind →
      arena.span (.node number) = ⟨start, start + Tree.totalLength trees⟩ →
      UnfoldsAll arena (arena.children (.node number)) start trees →
        Unfolds arena (.node number) start (.node kind trees)

/-- Consecutive elements are consecutive trees, each starting where the one before
it ends. -/
inductive UnfoldsAll (arena : Arena) : List Handle → (start : Nat) → List Tree → Prop
  | nil {start : Nat} : UnfoldsAll arena [] start []
  | cons {element : Handle} {rest : List Handle} {start : Nat} {tree : Tree}
      {trees : List Tree} :
      Unfolds arena element start tree →
      UnfoldsAll arena rest (start + tree.length) trees →
        UnfoldsAll arena (element :: rest) start (tree :: trees)

end

/-- An error node or an error token. -/
def Erroneous (arena : Arena) (element : Handle) : Prop :=
  arena.kind element = .errorNode ∨
    element.isToken = true ∧ arena.kind element = .errorToken

/-- A child of a node knows the node and its position there, and its neighbours are
those in the list of children. -/
structure Stands (arena : Arena) (number position : Nat) (child : Handle) : Prop where
  has : arena.Has child
  parent : arena.parent? child = some number
  index : arena.index child = position
  next : arena.next? child = (arena.children (.node number))[position + 1]?
  previous : arena.previous? child =
    if position = 0 then none else (arena.children (.node number))[position - 1]?

/-- What is told about the inside of a node, given what stands at and below it and
what stands before it in the whole tree. -/
structure Inside (arena : Arena) (number : Nat) (earlier below : List Handle) : Prop where
  tokens : arena.leaves number = below.filter Handle.isToken
  first : arena.firstToken? number = (below.filter Handle.isToken).head?
  last : arena.askLastToken? number =
    if (earlier ++ below).filter Handle.isToken = [] then none
    else some (below.filter Handle.isToken).getLast?
  hasError : arena.hasError number = true ↔ ∃ element ∈ below, arena.Erroneous element

/-- The elements of an arena describe a tree over a text. -/
structure Describes (arena : Arena) (text : Bytes) (tree : Tree) : Prop where
  text : arena.text.toList = text
  unfolds : arena.Unfolds root 0 tree
  /-- Every element is listed once from the root on. -/
  elements : ∃ all, arena.Lists root all ∧ all.Nodup ∧
    ∀ element, arena.Has element ↔ element ∈ all
  top : arena.parent? root = none ∧ arena.next? root = none ∧ arena.previous? root = none
  /-- Going up and down again leads back. -/
  up : ∀ element, arena.Has element → element ≠ root →
    ∃ parent, arena.parent? element = some parent ∧ arena.Has (.node parent) ∧
      arena.child? parent (arena.index element) = some element
  down : ∀ number, arena.Has (.node number) → ∀ position,
    arena.child? number position = (arena.children (.node number))[position]? ∧
      ∀ child ∈ (arena.children (.node number))[position]?,
        arena.Stands number position child
  /-- Going to a neighbour and back leads back. -/
  aside : ∀ element other, arena.Has element → arena.Has other →
    (arena.next? element = some other ↔ arena.previous? other = some element)
  inside : ∀ number, arena.Has (.node number) → ∃ earlier below later,
    arena.Lists (.node number) below ∧ arena.Lists root (earlier ++ (below ++ later)) ∧
      arena.Inside number earlier below
  /-- A token's neighbours are those in the list of all tokens. -/
  neighbours : ∀ position number, (arena.leaves 0)[position]? = some (.token number) →
    arena.nextToken? number = (arena.leaves 0)[position + 1]? ∧
      previousToken? number =
        if position = 0 then none else (arena.leaves 0)[position - 1]?

variable {arena : Arena} {text : Bytes} {tree : Tree} {place : Place}

theorem unfoldsAll_among {kind : Kind} {outer : List Crumb} {before trees : List Tree}
    (each : ∀ child ∈ Place.among kind outer before trees,
      arena.Unfolds child.handle child.start child.focus) :
    arena.UnfoldsAll ((Place.among kind outer before trees).map Place.handle)
      (Tree.totalLength before + Crumb.offset outer) trees := by
  induction trees generalizing before with
  | nil => exact .nil
  | cons tree after ih =>
      have first := each _ List.mem_cons_self
      have others : ∀ child ∈ Place.among kind outer (tree :: before) after,
          arena.Unfolds child.handle child.start child.focus :=
        fun child member => each child (List.mem_cons_of_mem _ member)
      have later := ih others
      refine .cons first ?_
      rw [Tree.totalLength, Nat.add_comm tree.length, Nat.add_right_comm] at later
      exact later

theorem Keeps.unfolds (keeps : arena.Keeps tree) (member : place ∈ preorder ⟨tree, []⟩) :
    arena.Unfolds place.handle place.start place.focus := by
  obtain ⟨focus, above⟩ := place
  induction focus using Tree.induct generalizing above with
  | token kind length => exact .token (keeps.kind member) (keeps.span member)
  | node kind trees ih =>
      refine .node (keeps.kind member) (keeps.span member) ?_
      have isNode : Place.isNode ⟨.node kind trees, above⟩ = true := rfl
      rw [← Place.handle_of_isNode isNode, keeps.children member]
      have each : ∀ child ∈ Place.children ⟨.node kind trees, above⟩,
          arena.Unfolds child.handle child.start child.focus := by
        intro child childIn
        exact ih child.focus (Place.focus_mem_children childIn) child.above
          (Place.children_subset_preorder member child childIn)
      have below : arena.UnfoldsAll
          ((Place.among kind above [] trees).map Place.handle)
          (Tree.totalLength [] + Crumb.offset above) trees :=
        unfoldsAll_among each
      simpa [Tree.totalLength, Place.children, Place.start] using below

theorem isError_iff (kind : Kind) :
    kind.isError = true ↔ kind = .errorNode ∨ kind = .errorToken := by
  cases kind <;> decide

theorem anyError_iff (trees : List Tree) :
    Tree.anyError trees = true ↔ ∃ tree ∈ trees, tree.hasError = true := by
  induction trees with
  | nil => simp [Tree.anyError]
  | cons tree rest ih => simp [Tree.anyError, ih]

/-- A tree has an error where an error stands at or below its place. -/
theorem Keeps.hasError_iff (keeps : arena.Keeps tree)
    (member : place ∈ preorder ⟨tree, []⟩) :
    place.focus.hasError = true ↔
      ∃ element ∈ place.preorder.map Place.handle, arena.Erroneous element := by
  obtain ⟨focus, above⟩ := place
  have here := keeps.kind member
  induction focus using Tree.induct generalizing above with
  | token kind length =>
      have isToken : (Place.handle ⟨.token kind length, above⟩).isToken = true := rfl
      simp [Place.preorder, Place.preorderOnto, Erroneous, here, isToken, Tree.hasError,
        isError_iff, Place.kind, Tree.kind]
  | node kind trees ih =>
      have isToken : (Place.handle ⟨.node kind trees, above⟩).isToken = false := rfl
      rw [Tree.hasError, Bool.or_eq_true, beq_iff_eq, anyError_iff, Place.preorder_eq_cons,
        List.map_cons]
      simp only [List.mem_cons, exists_eq_or_imp, Erroneous, here, isToken,
        Bool.false_eq_true, false_and, or_false]
      refine or_congr Iff.rfl ?_
      constructor
      · rintro ⟨part, partIn, bad⟩
        have placed := partIn
        rw [← Place.map_focus_among kind above [] trees] at placed
        obtain ⟨child, childIn, rfl⟩ := List.mem_map.mp placed
        have inside := Place.children_subset_preorder member child childIn
        obtain ⟨element, below, error⟩ :=
          (ih child.focus partIn child.above inside (keeps.kind inside)).mp bad
        obtain ⟨other, otherIn, rfl⟩ := List.mem_map.mp below
        exact ⟨other.handle,
          List.mem_map_of_mem (List.mem_flatMap.mpr ⟨child, childIn, otherIn⟩), error⟩
      · rintro ⟨element, below, error⟩
        obtain ⟨other, otherIn, rfl⟩ := List.mem_map.mp below
        obtain ⟨child, childIn, otherIn⟩ := List.mem_flatMap.mp otherIn
        have inside := Place.children_subset_preorder member child childIn
        have part := Place.focus_mem_children childIn
        exact ⟨child.focus, part, (ih child.focus part child.above inside
          (keeps.kind inside)).mpr ⟨other.handle, List.mem_map_of_mem otherIn, error⟩⟩

theorem Over.stands (laid : arena.Over text tree) (member : place ∈ preorder ⟨tree, []⟩)
    {child : Place} {position : Nat} (found : place.children[position]? = some child) :
    arena.Stands (Crumb.nodesBefore place.above) position child.handle := by
  have childIn := Place.children_subset_preorder member child (List.mem_of_getElem? found)
  have isNode := Place.isNode_of_mem_children (List.mem_of_getElem? found)
  obtain ⟨up, index⟩ := Place.getElem?_children found
  obtain ⟨-, next, previous⟩ := Place.children_around up
  have parent := laid.parent? childIn laid.isNode
  rw [up, Option.map_some, Place.handle_of_isNode isNode] at parent
  obtain ⟨number, parentEq, same⟩ := Option.map_eq_some_iff.mp parent
  obtain rfl := Handle.node.inj same
  constructor
  case has => exact laid.has childIn
  case parent => exact parentEq
  case index => rw [laid.index childIn, index]
  case next =>
    rw [laid.next? childIn laid.isNode, ← next, index, ← Place.handle_of_isNode isNode,
      laid.children member, List.getElem?_map]
  case previous =>
    rw [laid.previous? childIn laid.isNode, ← previous, index,
      ← Place.handle_of_isNode isNode, laid.children member, List.getElem?_map]
    split <;> rfl

theorem firstToken?_eq_head? (number : Nat) :
    arena.firstToken? number = (arena.leaves number).head? := by
  simp only [Arena.firstToken?, Arena.leaves, List.head?_map, List.head?_range']
  by_cases nonempty : (arena.nodeEntry number).firstToken < (arena.nodeEntry number).tokenStop
  · simp [nonempty, Nat.sub_ne_zero_of_lt nonempty]
  · simp [nonempty, Nat.sub_eq_zero_of_le (Nat.le_of_not_lt nonempty)]

theorem getElem?_firstTokens (count position : Nat) :
    ((List.range' 0 count).map Handle.token)[position]? =
      if position < count then some (.token position) else none := by
  split
  · next inside => simp [inside]
  · next outside => simpa using outside

theorem askLastToken?_eq_getLast? (number : Nat) :
    arena.askLastToken? number =
      if (arena.nodeEntry number).tokenStop = 0 then none
      else some (arena.leaves number).getLast? := by
  simp only [askLastToken?, Arena.leaves]
  congr 1
  by_cases nonempty : (arena.nodeEntry number).firstToken < (arena.nodeEntry number).tokenStop
  · obtain ⟨count, stop⟩ := Nat.exists_eq_add_of_lt nonempty
    simp [stop, Nat.add_assoc, List.range'_concat]
  · simp [nonempty, Nat.sub_eq_zero_of_le (Nat.le_of_not_lt nonempty)]

theorem Keeps.inside (keeps : arena.Keeps tree) (member : place ∈ preorder ⟨tree, []⟩)
    (isNode : place.isNode = true) {earlier : List Place}
    (count : (earlier.filter Place.isToken).length = Crumb.tokensBefore place.above) :
    arena.Inside (Crumb.nodesBefore place.above) (earlier.map Place.handle)
      (place.preorder.map Place.handle) where
  tokens := by
    rw [keeps.leaves member isNode, filter_map_handle]
    rfl
  first := by
    rw [firstToken?_eq_head?, keeps.leaves member isNode, filter_map_handle]
    rfl
  last := by
    have before : (earlier.filter Place.isToken).map Place.handle = [] ↔
        Crumb.tokensBefore place.above = 0 := by
      rw [List.map_eq_nil_iff, ← List.length_eq_zero_iff, count]
    have inside : (place.preorder.filter Place.isToken).map Place.handle =
        (List.range' (Crumb.tokensBefore place.above) place.focus.tokenCount).map .token :=
      Place.map_handle_tokens place
    have stop : (arena.nodeEntry (Crumb.nodesBefore place.above)).tokenStop =
        Crumb.tokensBefore place.above + place.focus.tokenCount := by
      rw [keeps.nodeEntry member isNode]
      rfl
    rw [List.filter_append, filter_map_handle, filter_map_handle,
      askLastToken?_eq_getLast?, keeps.leaves member isNode, stop, Place.map_handle_tokens,
      inside]
    simp only [List.append_eq_nil_iff, before, List.map_eq_nil_iff, List.range'_eq_nil_iff,
      Nat.add_eq_zero_iff]
  hasError := by
    rw [keeps.hasError member isNode, keeps.hasError_iff member]

theorem handle_root (isNode : tree.isNode = true) : Place.handle ⟨tree, []⟩ = root :=
  Place.handle_of_isNode isNode

theorem Over.up_down (laid : arena.Over text tree) {element : Handle} (has : arena.Has element)
    (notRoot : element ≠ root) :
    ∃ parent, arena.parent? element = some parent ∧ arena.Has (.node parent) ∧
      arena.child? parent (arena.index element) = some element := by
  obtain ⟨place, member, rfl⟩ := laid.exists_place_of_has has
  cases up : place.parent? with
  | none =>
      exact absurd (by rw [Place.eq_root_of_parent? member up, handle_root laid.isNode]) notRoot
  | some above =>
      have aboveIn := Place.parent_mem_preorder member up
      have node := Place.isNode_of_mem_children (Place.mem_children_of_parent? up)
      have number := laid.parent? member laid.isNode
      rw [up, Option.map_some, Place.handle_of_isNode node] at number
      obtain ⟨found, parentEq, same⟩ := Option.map_eq_some_iff.mp number
      obtain rfl := Handle.node.inj same
      refine ⟨_, parentEq, ?_, ?_⟩
      · rw [← Place.handle_of_isNode node]
        exact laid.has aboveIn
      · rw [laid.child? aboveIn node, laid.index member, (Place.children_around up).1]
        rfl

theorem Over.next?_iff_previous? (laid : arena.Over text tree) {element other : Handle}
    (has : arena.Has element) (otherHas : arena.Has other) :
    arena.next? element = some other ↔ arena.previous? other = some element := by
  obtain ⟨place, member, rfl⟩ := laid.exists_place_of_has has
  obtain ⟨behind, behindIn, rfl⟩ := laid.exists_place_of_has otherHas
  rw [laid.next? member laid.isNode, laid.previous? behindIn laid.isNode]
  constructor
  · intro forth
    obtain ⟨found, isNext, same⟩ := Option.map_eq_some_iff.mp forth
    rw [← handle_injective (Place.next?_mem_preorder member isNext) behindIn same,
      Place.next?_eq_some_iff.mp isNext]
    rfl
  · intro back
    obtain ⟨found, isPrevious, same⟩ := Option.map_eq_some_iff.mp back
    rw [← handle_injective (Place.previous?_mem_preorder behindIn isPrevious) member same,
      Place.next?_eq_some_iff.mpr isPrevious]
    rfl

/-- The leaves of a whole tree are all tokens, and those next to a token have the numbers
next to its own. -/
theorem Over.tokens_around (laid : arena.Over text tree) {position number : Nat}
    (found : (arena.leaves 0)[position]? = some (.token number)) :
    arena.nextToken? number = (arena.leaves 0)[position + 1]? ∧
      previousToken? number =
        if position = 0 then none else (arena.leaves 0)[position - 1]? := by
  have leaves := laid.leaves (Place.mem_preorder_self ⟨tree, []⟩) laid.isNode
  rw [Place.map_handle_tokens] at leaves
  have size : arena.tokens.size = tree.tokenCount := by
    have numbers := congrArg List.length (Place.map_tokensBefore_preorder ⟨tree, []⟩)
    simpa [laid.tokens, tokenEntries] using numbers
  simp only [Crumb.nodesBefore, Crumb.tokensBefore] at leaves
  simp only [leaves, getElem?_firstTokens] at found ⊢
  obtain ⟨bound, same⟩ := Option.ite_some_none_eq_some.mp found
  obtain rfl := Handle.token.inj same
  rw [nextToken?, previousToken?, size]
  refine ⟨rfl, ?_⟩
  split
  · rfl
  · rw [if_pos (by omega)]

theorem Over.describes (laid : arena.Over text tree) : arena.Describes text tree := by
  have rootIn := Place.mem_preorder_self ⟨tree, []⟩
  have rootHandle := handle_root laid.isNode
  have parent := laid.parent? rootIn laid.isNode
  have next := laid.next? rootIn laid.isNode
  have previous := laid.previous? rootIn laid.isNode
  have lists := laid.lists rootIn
  rw [rootHandle] at parent next previous lists
  refine
    { text := by simp [laid.covered]
      unfolds := rootHandle ▸ laid.unfolds rootIn
      elements := ⟨_, lists, nodup_handles tree, laid.has_iff⟩
      top := ⟨by simpa [Place.parent?] using parent, next, previous⟩
      up := fun _ has notRoot => laid.up_down has notRoot
      down := ?down
      aside := fun _ _ has otherHas => laid.next?_iff_previous? has otherHas
      inside := ?inside
      neighbours := fun _ _ found => laid.tokens_around found }
  case down =>
    intro number has position
    obtain ⟨place, member, isNode, rfl⟩ := laid.exists_node_of_has has
    rw [laid.child? member isNode, ← Place.handle_of_isNode isNode, laid.children member,
      List.getElem?_map]
    refine ⟨rfl, fun child found => ?_⟩
    obtain ⟨inner, innerAt, rfl⟩ := Option.map_eq_some_iff.mp found
    exact laid.stands member innerAt
  case inside =>
    intro number has
    obtain ⟨place, member, isNode, rfl⟩ := laid.exists_node_of_has has
    obtain ⟨earlier, later, split, count⟩ := exists_split_preorder member
    have below := laid.lists member
    rw [Place.handle_of_isNode isNode] at below
    rw [split, List.map_append, List.map_append] at lists
    exact ⟨_, _, _, below, lists, laid.inside member isNode count⟩

/-- A node has an arena over every text of its length, and the arena describes it. -/
theorem ofTree?_describes (isNode : tree.isNode = true)
    (length : tree.length = text.length) :
    ∃ arena, ofTree? text tree = some arena ∧ arena.Describes text tree := by
  obtain ⟨arena, made⟩ := isSome_ofTree? isNode length
  exact ⟨arena, made, (over_of_ofTree? made).describes⟩

theorem ofTree?_describes_line :
    (Tree.node .sourceFile [.node .line [.token .ident 1, .token .eol 1]]).isNode = true ∧
      (Tree.node .sourceFile [.node .line [.token .ident 1, .token .eol 1]]).length =
        ([97, 10] : Bytes).length ∧
      ∃ arena,
        ofTree? [97, 10] (.node .sourceFile
          [.node .line [.token .ident 1, .token .eol 1]]) = some arena ∧
        arena.Describes [97, 10] (.node .sourceFile
          [.node .line [.token .ident 1, .token .eol 1]]) :=
  ⟨rfl, rfl, ofTree?_describes rfl rfl⟩

/-- The last token below a node is not always told: an empty root has none, and there
the question is refused. -/
theorem last_token_refused :
    ¬∀ text tree arena, ofTree? text tree = some arena →
      ∀ number, arena.Has (.node number) →
        arena.askLastToken? number = some (arena.leaves number).getLast? := by
  intro answered
  have told := answered [] (.node .sourceFile []) _ (ofTree?_node rfl) 0 Nat.zero_lt_one
  exact absurd told (by decide)

end Arena
end Asm6502
