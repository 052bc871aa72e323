import Asm6502.Kind

/-!
# Syntax trees

A tree is a leaf with a kind and a length, or a node with a kind and children.
Trees know nothing about where they stand, so a subtree means the same in every
text in which its bytes appear.
-/

namespace Asm6502

/-- An element of a syntax tree. -/
inductive Tree where
  | token (kind : Kind) (length : Nat)
  | node (kind : Kind) (children : List Tree)
deriving Repr, Inhabited

namespace Tree

mutual

/-- Structural equality is decidable. -/
def decideEq : (left right : Tree) → Decidable (left = right)
  | .token kind length, .token kind' length' =>
      if same : kind = kind' ∧ length = length' then
        isTrue (by rw [same.1, same.2])
      else isFalse (by simpa using same)
  | .token _ _, .node _ _ => isFalse (by simp)
  | .node _ _, .token _ _ => isFalse (by simp)
  | .node kind children, .node kind' children' =>
      if sameKind : kind = kind' then
        match decideEqAll children children' with
        | isTrue same => isTrue (by rw [sameKind, same])
        | isFalse differ => isFalse (by simp [differ])
      else isFalse (by simp [sameKind])

def decideEqAll : (left right : List Tree) → Decidable (left = right)
  | [], [] => isTrue rfl
  | [], _ :: _ => isFalse (by simp)
  | _ :: _, [] => isFalse (by simp)
  | left :: lefts, right :: rights =>
      match decideEq left right with
      | isTrue same =>
          match decideEqAll lefts rights with
          | isTrue sameRest => isTrue (by rw [same, sameRest])
          | isFalse differ => isFalse (by simp [differ])
      | isFalse differ => isFalse (by simp [differ])

end

instance : DecidableEq Tree := decideEq

def kind : Tree → Kind
  | .token kind _ => kind
  | .node kind _ => kind

def children : Tree → List Tree
  | .token _ _ => []
  | .node _ children => children

def isNode : Tree → Bool
  | .token _ _ => false
  | .node _ _ => true

def isToken (tree : Tree) : Bool :=
  !tree.isNode

mutual

def length : Tree → Nat
  | .token _ length => length
  | .node _ children => totalLength children

def totalLength : List Tree → Nat
  | [] => 0
  | tree :: rest => tree.length + totalLength rest

end

mutual

/-- An error node or an error token stands somewhere in the tree. -/
def hasError : Tree → Bool
  | .token kind _ => kind.isError
  | .node kind children => kind == .errorNode || anyError children

def anyError : List Tree → Bool
  | [] => false
  | tree :: rest => tree.hasError || anyError rest

end

mutual

/-- The leaves from left to right, as kinds and lengths. -/
def leaves : Tree → List (Kind × Nat)
  | .token kind length => [(kind, length)]
  | .node _ children => allLeaves children

def allLeaves : List Tree → List (Kind × Nat)
  | [] => []
  | tree :: rest => tree.leaves ++ allLeaves rest

end

mutual

def nodeCount : Tree → Nat
  | .token _ _ => 0
  | .node _ children => totalNodeCount children + 1

def totalNodeCount : List Tree → Nat
  | [] => 0
  | tree :: rest => tree.nodeCount + totalNodeCount rest

end

mutual

def tokenCount : Tree → Nat
  | .token _ _ => 1
  | .node _ children => totalTokenCount children

def totalTokenCount : List Tree → Nat
  | [] => 0
  | tree :: rest => tree.tokenCount + totalTokenCount rest

end

end Tree
end Asm6502
