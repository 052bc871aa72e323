import Asm6502.Byte
import Asm6502.Span
import Asm6502.Text.Utf8
import Asm6502.Tree

/-!
# Arenas

An arena numbers the nodes and the tokens of a tree over its text and keeps one
entry for each: its kind, its span, and where it hangs.  The children of a node
are listed in consecutive slots.  An element is no more than its number, so going
to a parent, a sibling or a neighbouring token is looking up an entry.
-/

namespace Asm6502

/-- An element of an arena: the number of a node or of a token. -/
inductive Handle where
  | node (number : Nat)
  | token (number : Nat)
deriving DecidableEq, Repr, Inhabited

namespace Handle

def isToken : Handle → Bool
  | .node _ => false
  | .token _ => true

end Handle

/-- What an arena keeps for a node. -/
structure NodeEntry where
  kind : Kind
  span : Span
  /-- The number of the parent; the root has none. -/
  parent? : Option Nat
  /-- The position among the parent's children. -/
  index : Nat
  /-- The first of the slots that list the children. -/
  firstSlot : Nat
  slotStop : Nat
  /-- The first of the tokens below. -/
  firstToken : Nat
  tokenStop : Nat
  tree : Tree
deriving Repr, Inhabited

/-- What an arena keeps for a token. -/
structure TokenEntry where
  kind : Kind
  span : Span
  /-- The number of the parent. -/
  parent : Nat
  /-- The position among the parent's children. -/
  index : Nat
deriving Repr, Inhabited

structure Arena where
  text : Array UInt8
  nodes : Array NodeEntry
  tokens : Array TokenEntry
  /-- The children of every node, those of one node side by side. -/
  slots : Array Handle
deriving Repr, Inhabited

/-- A node that has a number, while its children get theirs. -/
structure Indexing.Frame where
  node : Nat
  /-- The children without a number. -/
  rest : List Tree
  /-- The position of the first of them. -/
  next : Nat
  /-- The slot of the first of them. -/
  slot : Nat
  /-- Where the first of them starts. -/
  offset : Nat

/-- A tree of which some elements have a number. -/
structure Indexing where
  nodes : Array NodeEntry := #[]
  tokens : Array TokenEntry := #[]
  slots : Array Handle := #[]
  /-- Nodes that are not closed, innermost first. -/
  opened : List Indexing.Frame := []

namespace Indexing

/-- Give a node its number and slots for its children, which come next.  Where it
ends is known when it is closed. -/
def openNode (kind : Kind) (trees : List Tree) (start : Nat)
    (parent? : Option Nat) (index : Nat) (state : Indexing) : Indexing :=
  let number := state.nodes.size
  let slot := state.slots.size
  let token := state.tokens.size
  { nodes := state.nodes.push
      ⟨kind, ⟨start, start⟩, parent?, index, slot, slot + trees.length, token,
        token, .node kind trees⟩
    tokens := state.tokens
    slots := state.slots ++ Array.replicate trees.length (.token 0)
    opened := ⟨number, trees, 0, slot, start⟩ :: state.opened }

/-- The open nodes around one that ends at an offset, where their next children
start. -/
def behind (stop : Nat) : List Frame → List Frame
  | [] => []
  | frame :: outer => { frame with offset := stop } :: outer

/-- Close the innermost open node: the tokens below it have their numbers, and it
ends where they end. -/
def closeNode (frame : Frame) (outer : List Frame) (state : Indexing) :
    Indexing :=
  { nodes := state.nodes.modify frame.node fun entry =>
      { entry with
        span := ⟨entry.span.start, frame.offset⟩
        tokenStop := state.tokens.size }
    tokens := state.tokens
    slots := state.slots
    opened := behind frame.offset outer }

/-- Go on with the innermost open node: its next child gets a number, or it is
closed.  `outer` are the other open nodes. -/
def step (frame : Frame) (outer : List Frame) (state : Indexing) : Indexing :=
  match frame.rest with
  | [] => closeNode frame outer state
  | .token kind length :: rest =>
      let stop := frame.offset + length
      { nodes := state.nodes
        tokens := state.tokens.push
          ⟨kind, ⟨frame.offset, stop⟩, frame.node, frame.next⟩
        slots :=
          state.slots.setIfInBounds frame.slot (.token state.tokens.size)
        opened :=
          ⟨frame.node, rest, frame.next + 1, frame.slot + 1, stop⟩ :: outer }
  | .node kind trees :: rest =>
      openNode kind trees frame.offset (some frame.node) frame.next
        { nodes := state.nodes
          tokens := state.tokens
          slots :=
            state.slots.setIfInBounds frame.slot (.node state.nodes.size)
          opened :=
            ⟨frame.node, rest, frame.next + 1, frame.slot + 1, frame.offset⟩ ::
              outer }

/-- How many steps are left: every node is opened and closed. -/
def work : List Frame → Nat
  | [] => 0
  | frame :: outer =>
      2 * Tree.totalNodeCount frame.rest + Tree.totalTokenCount frame.rest + 1 +
        work outer

theorem work_behind (stop : Nat) (outer : List Frame) :
    work (behind stop outer) = work outer := by
  cases outer <;> rfl

theorem work_step (frame : Frame) (outer : List Frame) (state : Indexing) :
    work (step frame outer state).opened < work (frame :: outer) := by
  unfold step
  split
  · next => simp only [closeNode, work_behind, work]; omega
  · next cut =>
      simp only [work, cut, Tree.totalNodeCount, Tree.totalTokenCount,
        Tree.nodeCount, Tree.tokenCount]
      omega
  · next cut =>
      simp only [openNode, work, cut, Tree.totalNodeCount,
        Tree.totalTokenCount, Tree.nodeCount, Tree.tokenCount]
      omega

def run (state : Indexing) : Indexing :=
  match _ : state.opened with
  | [] => state
  | frame :: outer => run (step frame outer state)
termination_by work state.opened
decreasing_by
  rename_i opened
  rw [opened]
  exact work_step frame outer state

end Indexing

namespace Arena

/-- The arena of a tree over the text that it covers.  The root is a node, and
its length is that of the text. -/
def ofTree? (text : Bytes) : Tree → Option Arena
  | .token _ _ => none
  | .node kind trees =>
      if (Tree.node kind trees).length = text.length then
        let done := (Indexing.openNode kind trees 0 none 0 {}).run
        some ⟨text.toArray, done.nodes, done.tokens, done.slots⟩
      else none

def nodeEntry (arena : Arena) (number : Nat) : NodeEntry :=
  arena.nodes.getD number default

def tokenEntry (arena : Arena) (number : Nat) : TokenEntry :=
  arena.tokens.getD number default

def root : Handle :=
  .node 0

def size (arena : Arena) : Nat :=
  arena.nodes.size + arena.tokens.size

/-- The element has an entry. -/
def Has (arena : Arena) : Handle → Prop
  | .node number => number < arena.nodes.size
  | .token number => number < arena.tokens.size

def kind (arena : Arena) : Handle → Kind
  | .node number => (arena.nodeEntry number).kind
  | .token number => (arena.tokenEntry number).kind

def isTrivia (arena : Arena) (element : Handle) : Bool :=
  (arena.kind element).isTrivia

def span (arena : Arena) : Handle → Span
  | .node number => (arena.nodeEntry number).span
  | .token number => (arena.tokenEntry number).span

def bytes (arena : Arena) (element : Handle) : Bytes :=
  let span := arena.span element
  (arena.text.extract span.start span.stop).toList

/-- The text that an element covers, undecodable bytes replaced. -/
def elementText (arena : Arena) (element : Handle) : String :=
  Utf8.decode (arena.bytes element)

def render (arena : Arena) (element : Handle) : String :=
  (arena.kind element).spelling ++ "@" ++ (arena.span element).render

/-- An error node or an error token stands at or below a node. -/
def hasError (arena : Arena) (number : Nat) : Bool :=
  (arena.nodeEntry number).tree.hasError

def parent? (arena : Arena) : Handle → Option Nat
  | .node number => (arena.nodeEntry number).parent?
  | .token number => some (arena.tokenEntry number).parent

/-- The position among the parent's children; zero at the root. -/
def index (arena : Arena) : Handle → Nat
  | .node number => (arena.nodeEntry number).index
  | .token number => (arena.tokenEntry number).index

def child? (arena : Arena) (number position : Nat) : Option Handle :=
  let entry := arena.nodeEntry number
  if entry.firstSlot + position < entry.slotStop then
    arena.slots[entry.firstSlot + position]?
  else none

def children (arena : Arena) : Handle → List Handle
  | .token _ => []
  | .node number =>
      let entry := arena.nodeEntry number
      (arena.slots.extract entry.firstSlot entry.slotStop).toList

def significant (arena : Arena) (element : Handle) : List Handle :=
  (arena.children element).filter fun child => !arena.isTrivia child

def firstChild? (arena : Arena) : Handle → Option Handle
  | .token _ => none
  | .node number => arena.child? number 0

def lastChild? (arena : Arena) : Handle → Option Handle
  | .token _ => none
  | .node number =>
      let entry := arena.nodeEntry number
      if entry.firstSlot < entry.slotStop then
        arena.child? number (entry.slotStop - entry.firstSlot - 1)
      else none

def descend? (arena : Arena) : List Nat → (number : Nat) → Option Nat
  | [], number => some number
  | position :: path, number =>
      match arena.child? number position with
      | some (.node child) => descend? arena path child
      | _ => none

def next? (arena : Arena) (element : Handle) : Option Handle :=
  (arena.parent? element).bind fun parent =>
    arena.child? parent (arena.index element + 1)

def previous? (arena : Arena) (element : Handle) : Option Handle :=
  (arena.parent? element).bind fun parent =>
    if arena.index element = 0 then none
    else arena.child? parent (arena.index element - 1)

def leaves (arena : Arena) (number : Nat) : List Handle :=
  let entry := arena.nodeEntry number
  (List.range' entry.firstToken (entry.tokenStop - entry.firstToken)).map .token

def firstToken? (arena : Arena) (number : Nat) : Option Handle :=
  let entry := arena.nodeEntry number
  if entry.firstToken < entry.tokenStop then some (.token entry.firstToken)
  else none

/-- The last token below a node.  It is the one before the end of the node's
tokens, and at the very first token of the arena there is none before: there the
question is refused, and the outer option is none. -/
def askLastToken? (arena : Arena) (number : Nat) : Option (Option Handle) :=
  let entry := arena.nodeEntry number
  if entry.tokenStop = 0 then none
  else if entry.firstToken < entry.tokenStop then
    some (some (.token (entry.tokenStop - 1)))
  else some none

def nextToken? (arena : Arena) (number : Nat) : Option Handle :=
  if number + 1 < arena.tokens.size then some (.token (number + 1)) else none

/-- The token in front of another one in the whole tree. -/
def previousToken? (number : Nat) : Option Handle :=
  if number = 0 then none else some (.token (number - 1))

end Arena
end Asm6502
