import Asm6502.Line.Draft
import Asm6502.Line.Operator
import Asm6502.Dialect
import Asm6502.Proofs.TreeShape

/-!
# Trees with their tokens

A tree keeps the kinds and lengths of its tokens only.  A written tree keeps the
tokens themselves, so that it can be said which operator stands in an expression
or which command opens a block.  A grammar of written trees says what can stand
directly in a node of each kind.
-/

namespace Asm6502

/-- A tree with the tokens at its leaves. -/
inductive Written where
  | leaf (token : Token)
  | node (kind : Kind) (children : List Written)

namespace Written

/-- Induction over a written tree, with the children of a node as a list. -/
@[elab_as_elim]
theorem induct {motive : Written → Prop}
    (leaf : ∀ token, motive (.leaf token))
    (node : ∀ kind children,
      (∀ child ∈ children, motive child) → motive (.node kind children)) :
    ∀ written, motive written
  | .leaf token => leaf token
  | .node kind children =>
      node kind children fun child _ => induct leaf node child

def kind : Written → Kind
  | .leaf token => token.kind
  | .node kind _ => kind

def children : Written → List Written
  | .leaf _ => []
  | .node _ children => children

def isToken : Written → Bool
  | .leaf _ => true
  | .node _ _ => false

def isTrivia (written : Written) : Bool :=
  written.kind.isTrivia

mutual

/-- The tree without the texts of its tokens. -/
def tree : Written → Tree
  | .leaf token => Draft.leaf token
  | .node kind children => .node kind (allTrees children)

def allTrees : List Written → List Tree
  | [] => []
  | written :: rest => written.tree :: allTrees rest

end

mutual

def tokens : Written → List Token
  | .leaf token => [token]
  | .node _ children => allTokens children

def allTokens : List Written → List Token
  | [] => []
  | written :: rest => written.tokens ++ allTokens rest

end

theorem allTrees_eq_map (trees : List Written) : allTrees trees = trees.map tree := by
  induction trees with
  | nil => rfl
  | cons written rest ih => rw [allTrees, ih, List.map_cons]

theorem tree_node (kind : Kind) (children : List Written) :
    (node kind children).tree = .node kind (children.map tree) := by
  rw [tree, allTrees_eq_map]

theorem tokens_node (kind : Kind) (children : List Written) :
    (node kind children).tokens = allTokens children :=
  rfl

@[simp]
theorem allTokens_append (first second : List Written) :
    allTokens (first ++ second) = allTokens first ++ allTokens second := by
  induction first with
  | nil => rfl
  | cons written rest ih => simp [allTokens, ih]

@[simp]
theorem allTokens_map_leaf (tokens : List Token) :
    allTokens (tokens.map leaf) = tokens := by
  induction tokens with
  | nil => rfl
  | cons first rest ih => simp [allTokens, Written.tokens, ih]

theorem kind_tree (written : Written) : written.tree.kind = written.kind := by
  cases written <;> rfl

theorem isNode_tree (written : Written) : written.tree.isNode = !written.isToken := by
  cases written <;> rfl

theorem leaves_tree (written : Written) :
    written.tree.leaves = written.tokens.map Token.pair := by
  induction written using Written.induct with
  | leaf token => rfl
  | node kind children ih =>
      rw [tree_node, Tree.leaves, tokens_node]
      induction children with
      | nil => rfl
      | cons child rest restIH =>
          rw [List.map_cons, Tree.allLeaves, allTokens, List.map_append,
            ih child (by simp), restIH fun other member => ih other (by simp [member])]

theorem length_tree (written : Written) :
    written.tree.length = Token.totalLength written.tokens := by
  rw [← Tree.leafLength_leaves, leaves_tree, Tree.leafLength_map_pair]

theorem totalLength_map_tree (trees : List Written) :
    Tree.totalLength (trees.map tree) = Token.totalLength (allTokens trees) := by
  induction trees with
  | nil => rfl
  | cons written rest ih =>
      rw [List.map_cons, Tree.totalLength, allTokens, Token.totalLength_append,
        length_tree, ih]

def significant (written : Written) : List Written :=
  written.children.filter fun child => !child.isTrivia

/-- The token, if there is no tree around it. -/
def token? : Written → Option Token
  | .leaf token => some token
  | .node _ _ => none

/-- The first significant child, if that is a token. -/
def prefixToken? (written : Written) : Option Token :=
  written.significant.head?.bind token?

/-- The first significant token among the children. -/
def infixToken? (written : Written) : Option Token :=
  written.significant.findSome? token?

def power? (written : Written) : Option Nat :=
  if written.kind = .binaryExpr then
    written.infixToken?.bind fun operator =>
      Operator.infixPower? operator.kind operator.text
  else none

/-- A logical negation, which takes everything to its right. -/
def IsNegation (written : Written) : Prop :=
  written.kind = .unaryExpr ∧
    ∃ operator, written.prefixToken? = some operator ∧
      Operator.prefixPower? operator.kind operator.text = some Operator.negationPower

/-- A negation stands at the top or along the right edge. -/
inductive EndsInNegation : Written → Prop
  | here {written : Written} : written.IsNegation → EndsInNegation written
  | last {kind : Kind} {children : List Written} {child : Written} :
      kind = .binaryExpr ∨ kind = .unaryExpr → children.getLast? = some child →
        EndsInNegation child → EndsInNegation (.node kind children)

theorem power?_leaf (token : Token) : (leaf token).power? = none := by
  unfold power?
  split <;> rfl

theorem power?_of_kind_ne {written : Written} (other : written.kind ≠ .binaryExpr) :
    written.power? = none := by
  rw [power?, if_neg other]

theorem not_endsInNegation_of_kind_ne {written : Written}
    (notBinary : written.kind ≠ .binaryExpr) (notUnary : written.kind ≠ .unaryExpr) :
    ¬ written.EndsInNegation := by
  intro ends
  cases ends with
  | here negation => exact notUnary negation.1
  | last operation => rcases operation with rfl | rfl <;> contradiction

end Written

/-- A node of this kind can be an operand of an expression. -/
def Kind.isOperand : Kind → Bool
  | .binaryExpr | .unaryExpr | .parenExpr | .callExpr | .numberLiteral | .charLiteral
  | .stringLiteral | .identifier | .member | .localLabelRef | .unnamedLabelRef
  | .pseudoVar | .macroCall | .macroArg | .errorNode => true
  | _ => false

/-- Which nodes can stand directly in a node inside a line. -/
def Kind.holds : Kind → Kind → Bool
  | .instruction, kind => kind == .operand
  | .directive, kind => kind.isOperand
  | .operand, kind => kind.isOperand
  | .symbolAssignment, kind => kind.isOperand
  | .field, kind => kind.isOperand || kind == .directive
  | .macroCall, kind => kind == .macroArg
  | .binaryExpr, kind => kind.isOperand
  | .unaryExpr, kind => kind.isOperand
  | .parenExpr, kind => kind.isOperand
  | .callExpr, kind => kind.isOperand
  | _, _ => false

namespace Written

/-- A token, or a node of one of some kinds. -/
def Among (kinds : Kind → Bool) (written : Written) : Prop :=
  written.isToken = true ∨ kinds written.kind = true

theorem Among.mono {kinds others : Kind → Bool} {written : Written}
    (among : written.Among kinds) (included : ∀ kind, kinds kind → others kind) :
    written.Among others :=
  among.imp_right (included _)

theorem among_leaves (kinds : Kind → Bool) (tokens : List Token) :
    ∀ child ∈ tokens.map leaf, child.Among kinds := by
  intro child member
  obtain ⟨token, -, rfl⟩ := List.mem_map.mp member
  exact .inl rfl

/-- An operator of some power behind its left operand, in front of whatever
follows.  To its left nothing binds looser, and to its right everything binds
tighter. -/
inductive InfixShape (power : Nat) : List Written → Prop
  | intro {left : Written} {gap : List Token} {operator : Token}
      {behind : List Written} :
      left.isToken = false → (∀ inner, left.power? = some inner → power ≤ inner) →
        ¬ left.EndsInNegation → (∀ token ∈ gap, token.isTrivia = true) →
          operator.isTrivia = false →
            Operator.infixPower? operator.kind operator.text = some power →
              (∀ child ∈ behind, ∀ inner, child.power? = some inner → power < inner) →
                InfixShape power (left :: (gap.map leaf ++ leaf operator :: behind))

/-- A prefix operator of some power in front of whatever follows, in which
everything binds tighter. -/
inductive PrefixShape (power : Nat) : List Written → Prop
  | intro {operator : Token} {behind : List Written} :
      operator.isTrivia = false →
        Operator.prefixPower? operator.kind operator.text = some power →
          (∀ child ∈ behind, ∀ inner, child.power? = some inner → power < inner) →
            PrefixShape power (leaf operator :: behind)

/-- A command word of the dialect and its arguments. -/
inductive CommandShape (dialect : Dialect) (command : Directive) : List Written → Prop
  | intro {word : Token} {arguments : List Written} :
      word.kind = .directiveKw → dialect.directive? word.text = some command →
        CommandShape dialect command (leaf word :: arguments)

/-- No token of an error stands here other than in a node. -/
def Clean (parts : List Written) : Prop :=
  ∀ part ∈ parts, part.isToken = true → part.kind ≠ .errorToken

/-- At most some of the parts are nodes, and none is a token of an error. -/
structure Sparse (bound : Nat) (parts : List Written) : Prop where
  nodes : parts.countP (fun part => !part.isToken) ≤ bound
  clean : Clean parts

/-- What else is known of the children of a node than their kinds. -/
def Shape (dialect : Dialect) (kind : Kind) (children : List Written) : Prop :=
  match kind with
  | .binaryExpr => (∃ power, InfixShape power children) ∧ Sparse 2 children
  | .unaryExpr => (∃ power, PrefixShape power children) ∧ Sparse 1 children
  | .parenExpr => Sparse 1 children
  | .callExpr => Clean children
  | .numberLiteral | .charLiteral | .stringLiteral => Sparse 0 children
  | .directive => ∃ command, CommandShape dialect command children
  | .field =>
      ∀ child ∈ children, child.isToken = false → child.kind = .directive →
        ∃ command, CommandShape dialect command child.children ∧ command.role = .plain
  | _ => True

/-- A tree inside a line, as the grammar makes it. -/
inductive Formed (dialect : Dialect) : Written → Prop
  | leaf (token : Token) : Formed dialect (.leaf token)
  | node {kind : Kind} {children : List Written} :
      (∀ child ∈ children, child.Among kind.holds) → Shape dialect kind children →
        (∀ child ∈ children, Formed dialect child) → Formed dialect (.node kind children)

section

variable {bound more : Nat} {first second : List Written}

theorem Clean.append (clean : Clean first) (behind : Clean second) :
    Clean (first ++ second) := fun part member =>
  (List.mem_append.mp member).elim (clean part) (behind part)

theorem Sparse.append (sparse : Sparse bound first) (behind : Sparse more second) :
    Sparse (bound + more) (first ++ second) where
  nodes := by
    rw [List.countP_append]
    exact Nat.add_le_add sparse.nodes behind.nodes
  clean := sparse.clean.append behind.clean

theorem sparse_nil (bound : Nat) : Sparse bound [] :=
  ⟨by simp, by simp [Clean]⟩

theorem sparse_leaf {token : Token} (proper : token.kind ≠ .errorToken) :
    Sparse 0 [leaf token] :=
  ⟨by simp [isToken], by simpa [Clean, kind] using fun _ => proper⟩

theorem sparse_node {written : Written} (isNode : written.isToken = false) :
    Sparse 1 [written] :=
  ⟨by simp [isNode], by simp [Clean, isNode]⟩

/-- Trivia are no errors. -/
theorem sparse_gap {gap : List Token} (trivial : ∀ token ∈ gap, token.isTrivia = true) :
    Sparse 0 (gap.map leaf) where
  nodes := by
    rw [Nat.le_zero, List.countP_eq_zero]
    intro part member
    obtain ⟨token, -, rfl⟩ := List.mem_map.mp member
    simp [isToken]
  clean := by
    intro part member _ isError
    obtain ⟨token, isGap, rfl⟩ := List.mem_map.mp member
    have isTrivia := trivial token isGap
    change token.kind = .errorToken at isError
    rw [Token.isTrivia, isError] at isTrivia
    contradiction

end

section

variable {power : Nat} {children behind : List Written}

theorem InfixShape.append (shape : InfixShape power children)
    (tighter : ∀ child ∈ behind, ∀ inner, child.power? = some inner → power < inner) :
    InfixShape power (children ++ behind) := by
  obtain ⟨isNode, notLooser, closed, trivial, significant, found, before⟩ := shape
  simp only [List.cons_append, List.append_assoc]
  refine .intro isNode notLooser closed trivial significant found ?_
  intro child member
  exact (List.mem_append.mp member).elim (before child) (tighter child)

theorem PrefixShape.append (shape : PrefixShape power children)
    (tighter : ∀ child ∈ behind, ∀ inner, child.power? = some inner → power < inner) :
    PrefixShape power (children ++ behind) := by
  obtain ⟨significant, found, before⟩ := shape
  refine .intro significant found ?_
  intro child member
  exact (List.mem_append.mp member).elim (before child) (tighter child)

theorem InfixShape.infixToken? (shape : InfixShape power children) (kind : Kind) :
    ∃ operator, (node kind children).infixToken? = some operator ∧
      Operator.infixPower? operator.kind operator.text = some power := by
  obtain ⟨isNode, -, -, trivial, significant, found, -⟩ := shape
  rename_i left gap operator behind
  refine ⟨operator, ?_, found⟩
  have kept : (leaf operator).isTrivia = false := significant
  have skipped : (gap.map leaf).filter (fun child => !child.isTrivia) = [] := by
    rw [List.filter_eq_nil_iff]
    intro child member
    obtain ⟨token, isGap, rfl⟩ := List.mem_map.mp member
    have isTrivia : (leaf token).isTrivia = true := trivial token isGap
    simp [isTrivia]
  cases left with
  | leaf => contradiction
  | node =>
      simp only [Written.infixToken?, Written.significant, Written.children,
        List.filter_cons, List.filter_append, skipped, kept]
      split <;> simp [List.findSome?_cons, token?]

theorem InfixShape.power? (shape : InfixShape power children) :
    (node .binaryExpr children).power? = some power := by
  obtain ⟨operator, isOperator, found⟩ := shape.infixToken? .binaryExpr
  have isBinary : (node .binaryExpr children).kind = .binaryExpr := rfl
  rw [Written.power?, if_pos isBinary, isOperator]
  exact found

theorem PrefixShape.prefixToken? (shape : PrefixShape power children) (kind : Kind) :
    ∃ operator, (node kind children).prefixToken? = some operator ∧
      Operator.prefixPower? operator.kind operator.text = some power := by
  obtain ⟨significant, found, -⟩ := shape
  rename_i operator behind
  refine ⟨operator, ?_, found⟩
  have kept : (leaf operator).isTrivia = false := significant
  simp [Written.prefixToken?, Written.significant, Written.children, kept, token?]

theorem PrefixShape.eq_negationPower (shape : PrefixShape power children)
    (negation : (node .unaryExpr children).IsNegation) :
    power = Operator.negationPower := by
  obtain ⟨operator, isOperator, found⟩ := shape.prefixToken? .unaryExpr
  obtain ⟨-, negator, isNegator, negates⟩ := negation
  rw [isOperator] at isNegator
  obtain rfl := Option.some.inj isNegator
  exact Option.some.inj (found.symm.trans negates)

end

end Written
end Asm6502
