import Asm6502.Proofs.TreePlaces
import Asm6502.Tree.Arena

/-!
# The layout of an arena

Numbering a tree fills the arena with one entry for each place, in text order.
The numbers of a place follow from what stands before it: the nodes and tokens of
earlier siblings all the way up, and the enclosing nodes.
-/

namespace Asm6502

namespace Tree

/-- Induction over the trees of a forest, from the first on, and into nodes. -/
theorem forestInduct {motive : List Tree → Prop} (nil : motive [])
    (token : ∀ kind length rest, motive rest → motive (.token kind length :: rest))
    (node : ∀ kind children rest, motive children → motive rest →
      motive (.node kind children :: rest)) :
    ∀ trees, motive trees
  | [] => nil
  | .token kind length :: rest =>
      token kind length rest (forestInduct nil token node rest)
  | .node kind children :: rest =>
      node kind children rest (forestInduct nil token node children)
        (forestInduct nil token node rest)

mutual

/-- The number of children of all nodes of a tree. -/
def slotCount : Tree → Nat
  | .token _ _ => 0
  | .node _ children => children.length + totalSlotCount children

def totalSlotCount : List Tree → Nat
  | [] => 0
  | tree :: rest => tree.slotCount + totalSlotCount rest

end

end Tree

namespace Crumb

/-- The nodes before an element in the given surroundings, those around it
included. -/
def nodesBefore : List Crumb → Nat
  | [] => 0
  | crumb :: outer => Tree.totalNodeCount crumb.before + (nodesBefore outer + 1)

def tokensBefore : List Crumb → Nat
  | [] => 0
  | crumb :: outer => Tree.totalTokenCount crumb.before + tokensBefore outer

/-- The children of all nodes before an element. -/
def slotsBefore : List Crumb → Nat
  | [] => 0
  | crumb :: outer =>
      Tree.totalSlotCount crumb.before +
        (slotsBefore outer + (crumb.before.length + (crumb.after.length + 1)))

end Crumb

namespace Place

/-- The element that stands for a place. -/
def handle (place : Place) : Handle :=
  match place.focus with
  | .token _ _ => .token (Crumb.tokensBefore place.above)
  | .node _ _ => .node (Crumb.nodesBefore place.above)

/-- The number of the node around an element in the given surroundings. -/
def parentNumber? : List Crumb → Option Nat
  | [] => none
  | _ :: outer => some (Crumb.nodesBefore outer)

def nodeEntry (place : Place) : NodeEntry where
  kind := place.kind
  span := place.span
  parent? := parentNumber? place.above
  index := place.index
  firstSlot := Crumb.slotsBefore place.above
  slotStop := Crumb.slotsBefore place.above + place.focus.children.length
  firstToken := Crumb.tokensBefore place.above
  tokenStop := Crumb.tokensBefore place.above + place.focus.tokenCount
  tree := place.focus

/-- The entry of a node that has not been closed. -/
def opening (place : Place) : NodeEntry :=
  { place.nodeEntry with
    span := ⟨place.start, place.start⟩
    tokenStop := Crumb.tokensBefore place.above }

def tokenEntry (place : Place) : TokenEntry where
  kind := place.kind
  span := place.span
  parent := (parentNumber? place.above).getD 0
  index := place.index

/-- Consecutive children with all that stands below them. -/
def below (kind : Kind) (outer : List Crumb) (before trees : List Tree) : List Place :=
  (among kind outer before trees).flatMap preorder

variable {kind : Kind} {outer : List Crumb} {before : List Tree}

@[simp]
theorem below_nil : below kind outer before [] = [] :=
  rfl

@[simp]
theorem below_token (tokenKind : Kind) (length : Nat) (after : List Tree) :
    below kind outer before (.token tokenKind length :: after) =
      ⟨.token tokenKind length, ⟨kind, before, after⟩ :: outer⟩ ::
        below kind outer (.token tokenKind length :: before) after :=
  rfl

@[simp]
theorem below_node (nodeKind : Kind) (trees after : List Tree) :
    below kind outer before (.node nodeKind trees :: after) =
      ⟨.node nodeKind trees, ⟨kind, before, after⟩ :: outer⟩ ::
        (below nodeKind (⟨kind, before, after⟩ :: outer) [] trees ++
          below kind outer (.node nodeKind trees :: before) after) := by
  rw [below, among, List.flatMap_cons, preorder_eq_cons]
  rfl

theorem preorder_node (kind : Kind) (trees : List Tree) (above : List Crumb) :
    preorder ⟨.node kind trees, above⟩ =
      ⟨.node kind trees, above⟩ :: below kind above [] trees :=
  preorder_eq_cons _

end Place

namespace Place

theorem map_nodesBefore (kind : Kind) (outer : List Crumb) (before trees : List Tree) :
    ((below kind outer before trees).filter isNode).map
        (fun place => Crumb.nodesBefore place.above) =
      List.range' (Tree.totalNodeCount before + (Crumb.nodesBefore outer + 1))
        (Tree.totalNodeCount trees) := by
  induction trees using Tree.forestInduct generalizing kind outer before with
  | nil => rfl
  | token tokenKind length rest ih =>
      have later := ih kind outer (.token tokenKind length :: before)
      simpa [isNode, Tree.isNode, Tree.totalNodeCount, Tree.nodeCount] using later
  | node nodeKind children rest ihChildren ihRest =>
      have inside := ihChildren nodeKind (⟨kind, before, rest⟩ :: outer) []
      have later := ihRest kind outer (.node nodeKind children :: before)
      have place :
          isNode ⟨.node nodeKind children, ⟨kind, before, rest⟩ :: outer⟩ = true := rfl
      simp only [Tree.totalNodeCount, Tree.nodeCount, Crumb.nodesBefore, Nat.zero_add]
        at inside later
      rw [below_node, List.filter_cons_of_pos place, List.filter_append, List.map_cons,
        List.map_append, inside, later]
      simp only [Crumb.nodesBefore, Tree.totalNodeCount, Tree.nodeCount]
      rw [show Tree.totalNodeCount children + 1 + Tree.totalNodeCount rest =
        Tree.totalNodeCount children + Tree.totalNodeCount rest + 1 by omega,
        List.range'_succ, ← List.range'_append]
      congr 3
      omega

theorem map_tokensBefore (kind : Kind) (outer : List Crumb) (before trees : List Tree) :
    ((below kind outer before trees).filter isToken).map
        (fun place => Crumb.tokensBefore place.above) =
      List.range' (Tree.totalTokenCount before + Crumb.tokensBefore outer)
        (Tree.totalTokenCount trees) := by
  induction trees using Tree.forestInduct generalizing kind outer before with
  | nil => rfl
  | token tokenKind length rest ih =>
      have later := ih kind outer (.token tokenKind length :: before)
      have place :
          isToken ⟨.token tokenKind length, ⟨kind, before, rest⟩ :: outer⟩ = true := rfl
      rw [below_token, List.filter_cons_of_pos place, List.map_cons, later]
      simp only [Tree.totalTokenCount, Tree.tokenCount, Crumb.tokensBefore]
      rw [Nat.add_comm 1 (Tree.totalTokenCount rest), List.range'_succ]
      congr 2
      omega
  | node nodeKind children rest ihChildren ihRest =>
      have inside := ihChildren nodeKind (⟨kind, before, rest⟩ :: outer) []
      have later := ihRest kind outer (.node nodeKind children :: before)
      have place :
          ¬isToken ⟨.node nodeKind children, ⟨kind, before, rest⟩ :: outer⟩ = true := by
        simp [isToken, Tree.isToken, Tree.isNode]
      simp only [Tree.totalTokenCount, Tree.tokenCount, Crumb.tokensBefore, Nat.zero_add]
        at inside later
      rw [below_node, List.filter_cons_of_neg place, List.filter_append, List.map_append,
        inside, later]
      simp only [Tree.totalTokenCount, Tree.tokenCount]
      rw [← List.range'_append]
      congr 2
      omega

end Place

namespace Arena

def nodeEntries (places : List Place) : List NodeEntry :=
  (places.filter Place.isNode).map Place.nodeEntry

def tokenEntries (places : List Place) : List TokenEntry :=
  (places.filter Place.isToken).map Place.tokenEntry

def slotsOf (places : List Place) : List Handle :=
  places.flatMap fun place => place.children.map Place.handle

section

variable (places others : List Place) (above : List Crumb) (kind : Kind) (length : Nat)
  (trees : List Tree)

@[simp]
theorem nodeEntries_append :
    nodeEntries (places ++ others) = nodeEntries places ++ nodeEntries others := by
  simp [nodeEntries]

@[simp]
theorem tokenEntries_append :
    tokenEntries (places ++ others) = tokenEntries places ++ tokenEntries others := by
  simp [tokenEntries]

@[simp]
theorem slotsOf_append : slotsOf (places ++ others) = slotsOf places ++ slotsOf others := by
  simp [slotsOf]

@[simp]
theorem nodeEntries_token :
    nodeEntries (⟨.token kind length, above⟩ :: places) = nodeEntries places :=
  rfl

@[simp]
theorem tokenEntries_token :
    tokenEntries (⟨.token kind length, above⟩ :: places) =
      Place.tokenEntry ⟨.token kind length, above⟩ :: tokenEntries places :=
  rfl

@[simp]
theorem slotsOf_token : slotsOf (⟨.token kind length, above⟩ :: places) = slotsOf places :=
  rfl

@[simp]
theorem nodeEntries_node :
    nodeEntries (⟨.node kind trees, above⟩ :: places) =
      Place.nodeEntry ⟨.node kind trees, above⟩ :: nodeEntries places :=
  rfl

@[simp]
theorem tokenEntries_node :
    tokenEntries (⟨.node kind trees, above⟩ :: places) = tokenEntries places :=
  rfl

@[simp]
theorem slotsOf_node :
    slotsOf (⟨.node kind trees, above⟩ :: places) =
      (Place.among kind above [] trees).map Place.handle ++ slotsOf places :=
  rfl

end

open Place (below among)

variable (kind : Kind) (outer : List Crumb) (before trees : List Tree)

theorem length_nodeEntries :
    (nodeEntries (below kind outer before trees)).length = Tree.totalNodeCount trees := by
  induction trees using Tree.forestInduct generalizing kind outer before with
  | nil => rfl
  | token _ _ rest ih => simp [ih, Tree.totalNodeCount, Tree.nodeCount]
  | node _ children rest ihChildren ihRest =>
      simp only [Place.below_node, nodeEntries_node, nodeEntries_append, List.length_cons,
        List.length_append, ihChildren, ihRest, Tree.totalNodeCount, Tree.nodeCount]
      omega

theorem length_tokenEntries :
    (tokenEntries (below kind outer before trees)).length = Tree.totalTokenCount trees := by
  induction trees using Tree.forestInduct generalizing kind outer before with
  | nil => rfl
  | token _ _ rest ih =>
      simp only [Place.below_token, tokenEntries_token, List.length_cons, ih,
        Tree.totalTokenCount, Tree.tokenCount]
      omega
  | node _ children rest ihChildren ihRest =>
      simp only [Place.below_node, tokenEntries_node, tokenEntries_append,
        List.length_append, ihChildren, ihRest, Tree.totalTokenCount, Tree.tokenCount]

theorem length_among : (among kind outer before trees).length = trees.length := by
  rw [← Place.map_focus_among kind outer before trees, List.length_map,
    Place.map_focus_among]

theorem length_slotsOf :
    (slotsOf (below kind outer before trees)).length = Tree.totalSlotCount trees := by
  induction trees using Tree.forestInduct generalizing kind outer before with
  | nil => rfl
  | token _ _ rest ih => simp [ih, Tree.totalSlotCount, Tree.slotCount]
  | node _ children rest ihChildren ihRest =>
      simp only [Place.below_node, slotsOf_node, slotsOf_append, List.length_append,
        List.length_map, length_among, ihChildren, ihRest, Tree.totalSlotCount,
        Tree.slotCount]
      omega

variable {kind outer before trees} {place : Place}

theorem exists_slots_of_mem_below (member : place ∈ below kind outer before trees) :
    ∃ earlier later,
      slotsOf (below kind outer before trees) =
          earlier ++ (place.children.map Place.handle ++ later) ∧
        Crumb.slotsBefore place.above = earlier.length +
          (Tree.totalSlotCount before +
            (Crumb.slotsBefore outer + (before.length + trees.length))) := by
  induction trees using Tree.forestInduct generalizing kind outer before with
  | nil => contradiction
  | token tokenKind length rest ih =>
      rw [Place.below_token, List.mem_cons] at member
      rcases member with rfl | later
      · exact ⟨[], _, rfl, by simp [Crumb.slotsBefore]⟩
      · obtain ⟨earlier, others, split, count⟩ := ih later
        refine ⟨earlier, others, by simpa using split, ?_⟩
        simp only [Tree.totalSlotCount, Tree.slotCount, List.length_cons] at count ⊢
        omega
  | node nodeKind children rest ihChildren ihRest =>
      rw [Place.below_node, List.mem_cons, List.mem_append] at member
      rcases member with rfl | inside | later
      · refine ⟨[], _, by rw [Place.below_node, slotsOf_node]; rfl, ?_⟩
        simp [Crumb.slotsBefore]
      · obtain ⟨earlier, others, split, count⟩ := ihChildren inside
        refine ⟨(among nodeKind (⟨kind, before, rest⟩ :: outer) [] children).map
          Place.handle ++ earlier,
          others ++ slotsOf (below kind outer (.node nodeKind children :: before) rest),
          ?_, ?_⟩
        · rw [Place.below_node, slotsOf_node, slotsOf_append, split]
          simp only [List.append_assoc]
        · simp only [Tree.totalSlotCount, List.length_nil, List.length_append,
            List.length_map, length_among, Crumb.slotsBefore, List.length_cons] at count ⊢
          omega
      · obtain ⟨earlier, others, split, count⟩ := ihRest later
        refine ⟨(among nodeKind (⟨kind, before, rest⟩ :: outer) [] children).map
          Place.handle ++ (slotsOf (below nodeKind (⟨kind, before, rest⟩ :: outer) []
            children) ++ earlier), others, ?_, ?_⟩
        · rw [Place.below_node, slotsOf_node, slotsOf_append, split]
          simp only [List.append_assoc]
        · simp only [Tree.totalSlotCount, Tree.slotCount, List.length_append,
            List.length_map, length_among, length_slotsOf, List.length_cons] at count ⊢
          omega

end Arena

namespace Indexing

open Arena
open Place (below among)

theorem run_cons (nodes : Array NodeEntry) (tokens : Array TokenEntry)
    (slots : Array Handle) (frame : Frame) (outer : List Frame) :
    run ⟨nodes, tokens, slots, frame :: outer⟩ =
      run (step frame outer ⟨nodes, tokens, slots, frame :: outer⟩) := by
  rw [run]

theorem modify_length {α : Type} (first rest : List α) (item : α) (change : α → α) :
    (first ++ item :: rest).modify first.length change = first ++ change item :: rest := by
  rw [List.modify_eq_take_cons_drop (by simp)]
  simp

section

variable (nodes : List NodeEntry) (tokens : List TokenEntry) (filled others : List Handle)
  (unset : Handle) (kind : Kind) (trees rest : List Tree) (number next offset : Nat)
  (stack : List Frame)

theorem run_token (length : Nat) :
    run ⟨nodes.toArray, tokens.toArray, (filled ++ unset :: others).toArray,
        ⟨number, .token kind length :: rest, next, filled.length, offset⟩ :: stack⟩ =
      run ⟨nodes.toArray,
        (tokens ++ [TokenEntry.mk kind ⟨offset, offset + length⟩ number next]).toArray,
        (filled ++ .token tokens.length :: others).toArray,
        ⟨number, rest, next + 1, filled.length + 1, offset + length⟩ :: stack⟩ := by
  rw [run_cons]
  simp [step]

theorem run_node :
    run ⟨nodes.toArray, tokens.toArray, (filled ++ unset :: others).toArray,
        ⟨number, .node kind trees :: rest, next, filled.length, offset⟩ :: stack⟩ =
      run ⟨(nodes ++ [NodeEntry.mk kind ⟨offset, offset⟩ (some number) next
          (filled.length + (others.length + 1))
          (filled.length + (others.length + 1) + trees.length) tokens.length
          tokens.length (.node kind trees)]).toArray,
        tokens.toArray,
        (filled ++ .node nodes.length ::
          (others ++ List.replicate trees.length (Handle.token 0))).toArray,
        ⟨nodes.length, trees, 0, filled.length + (others.length + 1), offset⟩ ::
          ⟨number, rest, next + 1, filled.length + 1, offset⟩ :: stack⟩ := by
  rw [run_cons]
  simp [step, openNode, ← List.toArray_replicate]

theorem run_close (entry : NodeEntry) (entries : List NodeEntry) (slots : Array Handle)
    (last slot : Nat) :
    run ⟨(nodes ++ entry :: entries).toArray, tokens.toArray, slots,
        ⟨nodes.length, [], last, slot, offset⟩ :: stack⟩ =
      run ⟨(nodes ++ { entry with
          span := ⟨entry.span.start, offset⟩
          tokenStop := tokens.length } :: entries).toArray,
        tokens.toArray, slots, behind offset stack⟩ := by
  rw [run_cons]
  simp [step, closeNode, modify_length]

end

/-- What is filled in when the children `before` of a node have their numbers and `trees`
are left: entries for all that stands before these, and slots up to that of the next child.
`others` are the slots behind those of the children. -/
structure Filled (outer : List Crumb) (before trees : List Tree) (nodes : List NodeEntry)
    (tokens : List TokenEntry) (filled others : List Handle) : Prop where
  nodes_length : nodes.length = Tree.totalNodeCount before + (Crumb.nodesBefore outer + 1)
  tokens_length : tokens.length = Tree.totalTokenCount before + Crumb.tokensBefore outer
  slots_length : filled.length + (trees.length + others.length) =
    Tree.totalSlotCount before + (Crumb.slotsBefore outer + (before.length + trees.length))

/-- The frame of a node whose children `before` have their numbers. -/
def frameAt (outer : List Crumb) (before trees : List Tree) (slot : Nat) : Frame :=
  ⟨Crumb.nodesBefore outer, trees, before.length, slot,
    Tree.totalLength before + Crumb.offset outer⟩

/-- The frame of the node when the other children have theirs as well. -/
def frameBehind (outer : List Crumb) (before trees : List Tree) (slot : Nat) : Frame :=
  ⟨Crumb.nodesBefore outer, [], before.length + trees.length, slot + trees.length,
    Tree.totalLength before + Crumb.offset outer + Tree.totalLength trees⟩

theorem frameAt_cons (outer : List Crumb) (tree : Tree) (before trees : List Tree) (slot : Nat) :
    frameAt outer (tree :: before) trees slot =
      ⟨Crumb.nodesBefore outer, trees, before.length + 1, slot,
        Tree.totalLength before + Crumb.offset outer + tree.length⟩ := by
  rw [frameAt, List.length_cons, Tree.totalLength]
  congr 1
  omega

theorem frameAt_nil (crumb : Crumb) (outer : List Crumb) (trees : List Tree) (slot : Nat) :
    frameAt (crumb :: outer) [] trees slot =
      ⟨Crumb.nodesBefore (crumb :: outer), trees, 0, slot,
        Tree.totalLength crumb.before + Crumb.offset outer⟩ := by
  rw [frameAt, Tree.totalLength, Nat.zero_add]
  rfl

theorem frameBehind_cons (outer : List Crumb) (tree : Tree) (before trees : List Tree)
    (slot : Nat) :
    frameBehind outer (tree :: before) trees (slot + 1) =
      frameBehind outer before (tree :: trees) slot := by
  simp only [frameBehind, List.length_cons, Tree.totalLength]
  congr 1
  all_goals omega

section

variable {kind : Kind} {outer : List Crumb} {before rest : List Tree} {nodes : List NodeEntry}
  {tokens : List TokenEntry} {filled others : List Handle}

theorem Filled.token {tokenKind : Kind} {length : Nat}
    (done : Filled outer before (.token tokenKind length :: rest) nodes tokens filled others)
    (entry : TokenEntry) (handle : Handle) :
    Filled outer (.token tokenKind length :: before) rest nodes (tokens ++ [entry])
      (filled ++ [handle]) others where
  nodes_length := by
    rw [done.nodes_length, Tree.totalNodeCount, Tree.nodeCount, Nat.zero_add]
  tokens_length := by
    rw [List.length_append, done.tokens_length, Tree.totalTokenCount, Tree.tokenCount]
    simp only [List.length_cons, List.length_nil]
    omega
  slots_length := by
    have slots := done.slots_length
    simp only [List.length_append, List.length_cons, List.length_nil, Tree.totalSlotCount,
      Tree.slotCount] at slots ⊢
    omega

theorem run_next_token {tokenKind : Kind} {length : Nat}
    (done : Filled outer before (.token tokenKind length :: rest) nodes tokens filled others)
    (unset : Handle) (more : List Handle) (stack : List Frame) :
    let place : Place := ⟨.token tokenKind length, ⟨kind, before, rest⟩ :: outer⟩
    run ⟨nodes.toArray, tokens.toArray, (filled ++ unset :: more).toArray,
        frameAt outer before (.token tokenKind length :: rest) filled.length :: stack⟩ =
      run ⟨nodes.toArray, (tokens ++ [place.tokenEntry]).toArray,
        (filled ++ place.handle :: more).toArray,
        frameAt outer (.token tokenKind length :: before) rest (filled.length + 1) :: stack⟩ := by
  intro place
  have handle : place.handle = .token tokens.length := by
    rw [done.tokens_length]
    rfl
  rw [frameAt, run_token, frameAt_cons, handle]
  rfl

variable {nodeKind : Kind} {children : List Tree}
  (done : Filled outer before (.node nodeKind children :: rest) nodes tokens filled others)

include done

theorem Filled.slotsBefore :
    Crumb.slotsBefore (⟨kind, before, rest⟩ :: outer) =
      filled.length + (rest.length + others.length + 1) := by
  have slots := done.slots_length
  simp only [List.length_cons, Crumb.slotsBefore] at slots ⊢
  omega

theorem Filled.inside (entry : NodeEntry) (handle : Handle) :
    Filled (⟨kind, before, rest⟩ :: outer) [] children (nodes ++ [entry]) tokens
      (filled ++ handle :: (List.replicate rest.length (.token 0) ++ others)) [] where
  nodes_length := by
    rw [List.length_append, done.nodes_length]
    simp [Tree.totalNodeCount, Crumb.nodesBefore]
  tokens_length := by
    rw [done.tokens_length]
    simp [Tree.totalTokenCount, Crumb.tokensBefore]
  slots_length := by
    rw [done.slotsBefore]
    simp [Tree.totalSlotCount]

theorem Filled.behind (entry : NodeEntry) (handle : Handle) (above : List Crumb) :
    Filled outer (.node nodeKind children :: before) rest
      (nodes ++ entry :: nodeEntries (below nodeKind above [] children))
      (tokens ++ tokenEntries (below nodeKind above [] children)) (filled ++ [handle])
      (others ++ ((among nodeKind above [] children).map Place.handle ++
        slotsOf (below nodeKind above [] children))) where
  nodes_length := by
    have counted := done.nodes_length
    simp only [List.length_append, List.length_cons, length_nodeEntries, Tree.totalNodeCount,
      Tree.nodeCount]
    omega
  tokens_length := by
    have counted := done.tokens_length
    simp only [List.length_append, length_tokenEntries, Tree.totalTokenCount, Tree.tokenCount]
    omega
  slots_length := by
    have slots := done.slots_length
    simp only [List.length_append, List.length_cons, List.length_nil, List.length_map,
      length_among, length_slotsOf, Tree.totalSlotCount, Tree.slotCount] at slots ⊢
    omega

theorem run_next_node (unset : Handle) (more : List Handle) (stack : List Frame)
    (length : more.length = rest.length + others.length) :
    let place : Place := ⟨.node nodeKind children, ⟨kind, before, rest⟩ :: outer⟩
    run ⟨nodes.toArray, tokens.toArray, (filled ++ unset :: more).toArray,
        frameAt outer before (.node nodeKind children :: rest) filled.length :: stack⟩ =
      run ⟨(nodes ++ [place.opening]).toArray, tokens.toArray,
        (filled ++ place.handle ::
          (more ++ List.replicate children.length (Handle.token 0))).toArray,
        frameAt place.above [] children (filled.length + (more.length + 1)) ::
          ⟨Crumb.nodesBefore outer, rest, before.length + 1, filled.length + 1, place.start⟩ ::
          stack⟩ := by
  intro place
  have handle : place.handle = .node nodes.length := by
    rw [done.nodes_length]
    rfl
  have nodesBefore : Crumb.nodesBefore (⟨kind, before, rest⟩ :: outer) = nodes.length :=
    done.nodes_length.symm
  have opening : place.opening = NodeEntry.mk nodeKind ⟨place.start, place.start⟩
      (some (Crumb.nodesBefore outer)) before.length (filled.length + (more.length + 1))
      (filled.length + (more.length + 1) + children.length)
      tokens.length tokens.length (.node nodeKind children) := by
    rw [length, ← done.slotsBefore, done.tokens_length]
    rfl
  rw [frameAt, run_node, frameAt_nil, nodesBefore, handle, opening]
  rfl

end

theorem run_completed (kind : Kind) (trees : List Tree) (above : List Crumb)
    (nodes entries : List NodeEntry) (tokens : List TokenEntry) (slots : Array Handle)
    (slot : Nat) (stack : List Frame) (nodesLength : nodes.length = Crumb.nodesBefore above)
    (tokensLength : tokens.length = Crumb.tokensBefore above + Tree.totalTokenCount trees) :
    let place : Place := ⟨.node kind trees, above⟩
    run ⟨(nodes ++ place.opening :: entries).toArray, tokens.toArray, slots,
        frameBehind above [] trees slot :: stack⟩ =
      run ⟨(nodes ++ place.nodeEntry :: entries).toArray, tokens.toArray, slots,
        behind place.stop stack⟩ := by
  intro place
  have stop : Tree.totalLength [] + Crumb.offset above + Tree.totalLength trees = place.stop := by
    rw [Tree.totalLength, Nat.zero_add]
    rfl
  have completed : { place.opening with
      span := ⟨place.opening.span.start, place.stop⟩
      tokenStop := tokens.length } = place.nodeEntry := by
    rw [tokensLength]
    rfl
  rw [frameBehind, ← nodesLength, stop, run_close, completed]

theorem run_children (kind : Kind) (outer : List Crumb) (before trees : List Tree)
    (stack : List Frame) (nodes : List NodeEntry) (tokens : List TokenEntry)
    (filled others : List Handle) (done : Filled outer before trees nodes tokens filled others) :
    run ⟨nodes.toArray, tokens.toArray,
        (filled ++ (List.replicate trees.length (Handle.token 0) ++ others)).toArray,
        frameAt outer before trees filled.length :: stack⟩ =
      run ⟨(nodes ++ nodeEntries (below kind outer before trees)).toArray,
        (tokens ++ tokenEntries (below kind outer before trees)).toArray,
        (filled ++ ((among kind outer before trees).map Place.handle ++
          (others ++ slotsOf (below kind outer before trees)))).toArray,
        frameBehind outer before trees filled.length :: stack⟩ := by
  induction trees using Tree.forestInduct
    generalizing kind outer before stack nodes tokens filled others with
  | nil => simp [among, nodeEntries, tokenEntries, slotsOf, Tree.totalLength, frameAt, frameBehind]
  | token tokenKind length rest ih =>
      let place : Place := ⟨.token tokenKind length, ⟨kind, before, rest⟩ :: outer⟩
      have later := ih kind outer (.token tokenKind length :: before) stack nodes
        (tokens ++ [place.tokenEntry]) (filled ++ [place.handle]) others (done.token _ _)
      rw [List.length_append, List.length_singleton, frameBehind_cons] at later
      rw [List.length_cons, List.replicate_succ, List.cons_append, run_next_token done]
      simpa only [among, Place.below_token, nodeEntries_token, tokenEntries_token, slotsOf_token,
        List.map_cons, List.append_assoc, List.cons_append, List.nil_append] using later
  | node nodeKind children rest ihChildren ihRest =>
      let place : Place := ⟨.node nodeKind children, ⟨kind, before, rest⟩ :: outer⟩
      -- The slots of the children are set aside when the node is opened, behind those of its
      -- siblings, and are filled in while the children are numbered.
      have inside := ihChildren nodeKind place.above []
        (⟨Crumb.nodesBefore outer, rest, before.length + 1, filled.length + 1, place.start⟩ ::
          stack)
        (nodes ++ [place.opening]) tokens
        (filled ++ place.handle :: (List.replicate rest.length (.token 0) ++ others)) []
        (done.inside _ _)
      have counted : (tokens ++ tokenEntries (below nodeKind place.above [] children)).length =
          Crumb.tokensBefore place.above + Tree.totalTokenCount children := by
        rw [List.length_append, length_tokenEntries, done.tokens_length]
        rfl
      have later := ihRest kind outer (.node nodeKind children :: before) stack
        (nodes ++ place.nodeEntry :: nodeEntries (below nodeKind place.above [] children))
        (tokens ++ tokenEntries (below nodeKind place.above [] children))
        (filled ++ [place.handle])
        (others ++ ((among nodeKind place.above [] children).map Place.handle ++
          slotsOf (below nodeKind place.above [] children))) (done.behind _ _ _)
      have stop : place.stop = Tree.totalLength before + Crumb.offset outer +
          (Tree.node nodeKind children).length := rfl
      rw [List.length_append, List.length_singleton, frameBehind_cons, frameAt_cons, ← stop]
        at later
      rw [List.length_cons, List.replicate_succ, List.cons_append, run_next_node done _ _ _ (by simp)]
      simp only [List.append_nil, List.append_assoc, List.cons_append,
        List.nil_append, List.length_append, List.length_cons, List.length_replicate] at inside ⊢
      rw [inside, run_completed nodeKind children place.above _ _ _ _ _ _ done.nodes_length counted]
      simpa only [among, Place.below_node, nodeEntries_node, tokenEntries_node, slotsOf_node,
        nodeEntries_append, tokenEntries_append, slotsOf_append, List.map_cons, List.cons_append,
        List.append_assoc, List.nil_append, behind] using later

end Indexing

namespace Arena

open Place (below among)

variable {text : Bytes} {kind : Kind} {trees : List Tree}

/-- The arena of a tree has one entry for each of its places, in text order. -/
theorem ofTree?_node (length : (Tree.node kind trees).length = text.length) :
    ofTree? text (.node kind trees) =
      some ⟨text.toArray, (nodeEntries (Place.preorder ⟨.node kind trees, []⟩)).toArray,
        (tokenEntries (Place.preorder ⟨.node kind trees, []⟩)).toArray,
        (slotsOf (Place.preorder ⟨.node kind trees, []⟩)).toArray⟩ := by
  let place : Place := ⟨.node kind trees, []⟩
  have start : Indexing.openNode kind trees 0 none 0 {} =
      ⟨[place.opening].toArray, [].toArray,
        ([] ++ (List.replicate trees.length (Handle.token 0) ++ [])).toArray,
        [Indexing.frameAt [] [] trees 0]⟩ := by
    have opening : place.opening =
        ⟨kind, ⟨0, 0⟩, none, 0, 0, 0 + trees.length, 0, 0, .node kind trees⟩ := rfl
    rw [opening]
    simp [Indexing.openNode, Indexing.frameAt, Crumb.nodesBefore, Crumb.offset, Tree.totalLength]
  have filled : Indexing.Filled [] [] trees [place.opening] [] [] [] :=
    ⟨rfl, rfl, by simp [Tree.totalSlotCount, Crumb.slotsBefore]⟩
  have children := Indexing.run_children kind [] [] trees [] [place.opening] [] [] [] filled
  have completed := Indexing.run_completed kind trees [] []
    (nodeEntries (below kind [] [] trees)) (tokenEntries (below kind [] [] trees))
    ((among kind [] [] trees).map Place.handle ++ slotsOf (below kind [] [] trees)).toArray 0 []
    rfl (by rw [length_tokenEntries, Crumb.tokensBefore, Nat.zero_add])
  rw [ofTree?, if_pos length, start]
  simp only [List.append_nil, List.nil_append, List.cons_append, List.length_nil]
    at children completed ⊢
  rw [children.trans completed, Indexing.behind, Indexing.run]
  simp [Place.preorder_node]

end Arena
end Asm6502
