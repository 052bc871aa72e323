import Asm6502.Proofs.OperatorPowers
import Asm6502.Proofs.SelectedPlaces

/-!
# Parts of expressions

How many nodes stand in an operation, and where they stand.  Operands are the
expressions among them; an error or a list in braces can stand where an operand is
looked for, and is none.  So the second operand always follows the operator, but the
first one does so too when what precedes the operator is no expression.
-/

namespace Asm6502

open List (Forall₂)
open Written Place

namespace View

/-- How many nodes can stand in an operation or a literal. -/
def Form.capacity? : Form → Option Nat
  | .binary => some 2
  | .unary | .paren => some 1
  | .literal => some 0
  | .call | .macroCall | .name => none

/-- Operations, calls of functions and literals. -/
def Form.isTerm : Form → Bool
  | .binary | .unary | .paren | .call | .literal => true
  | .macroCall | .name => false

/-- A fault or a list in braces, where an operand is looked for. -/
def Expression.isRaw (place : Place) : Bool :=
  place.isNode && (place.kind == .errorNode || place.kind == .macroArg)

/-- What can stand in an operation, a call or a literal: operands and what is put in
their place, and tokens that are no errors. -/
structure Expression.Parts (form : Form) (place : Place) : Prop where
  node : ∀ child ∈ place.nodes, isExpression child = true ∨ isRaw child = true
  few : ∀ bound, form.capacity? = some bound → place.nodes.length ≤ bound
  clean : ∀ child ∈ place.children, child.isToken = true → child.kind ≠ .errorToken

end View

open View View.Expression

namespace Place

variable {dialect : Dialect} {root written : Written} {place child : Place} {form : Form}

theorem isExpression_or_isRaw (isNode : place.isNode = true)
    (isOperand : place.kind.isOperand = true) :
    isExpression place = true ∨ isRaw place = true := by
  rw [isExpression, form?, if_pos isNode, isRaw, isNode]
  revert isOperand
  cases place.kind <;> decide

theorem isOperand_of_holds {outer kind : Kind} (isForm : Form.ofKind? outer = some form)
    (isTerm : form.isTerm = true) (held : outer.holds kind = true) : kind.isOperand = true := by
  unfold Form.ofKind? at isForm
  split at isForm <;> first | exact held | (cases isForm; contradiction) | contradiction

theorem Occurs.length_nodes (occurs : Occurs root place written) :
    place.nodes.length = written.children.countP fun part => !part.isToken := by
  rw [Place.nodes, List.countP_eq_length_filter]
  exact (forall₂_filter (fun _ _ occurs => occurs.isNode) occurs.forall₂_children).length_eq

theorem Occurs.clean (occurs : Occurs root place written) (clean : Clean written.children) :
    ∀ child ∈ place.children, child.isToken = true → child.kind ≠ .errorToken := by
  intro child childIn isToken
  obtain ⟨part, partIn, occursIn⟩ := exists_occurs_of_mem occurs.forall₂_children childIn
  rw [occursIn.isToken] at isToken
  rw [occursIn.kind]
  exact clean part partIn isToken

/-- The shape of an operation, a call or a literal bounds its nodes. -/
theorem sparse_of_shape {kind : Kind} {children : List Written}
    (shape : Shape dialect kind children) (isForm : Form.ofKind? kind = some form)
    (isTerm : form.isTerm = true) :
    (∀ bound, form.capacity? = some bound →
      children.countP (fun part => !part.isToken) ≤ bound) ∧ Clean children := by
  have sparse {bound : Nat} (sparse : Sparse bound children)
      (isBound : form.capacity? = some bound) :
      (∀ bound, form.capacity? = some bound →
        children.countP (fun part => !part.isToken) ≤ bound) ∧ Clean children := by
    refine ⟨fun other isOther => ?_, sparse.clean⟩
    obtain rfl := Option.some.inj (isBound.symm.trans isOther)
    exact sparse.nodes
  unfold Form.ofKind? at isForm
  split at isForm
  case h_1 => cases isForm; exact sparse shape.2 rfl
  case h_2 => cases isForm; exact sparse shape.2 rfl
  case h_3 => cases isForm; exact sparse shape rfl
  case h_4 => cases isForm; exact ⟨by simp [Form.capacity?], shape⟩
  case h_6 | h_7 | h_8 => cases isForm; exact sparse shape rfl
  all_goals first | contradiction | (cases isForm; contradiction)

theorem Occurs.parts (occurs : Occurs root place written)
    (formed : written.Formed dialect) (isForm : form? place = some form)
    (isTerm : form.isTerm = true) : Parts form place := by
  have isNode : place.isNode = true := by
    rw [form?] at isForm
    split at isForm
    · assumption
    · contradiction
  rw [form?, if_pos isNode, occurs.kind] at isForm
  cases formed with
  | leaf =>
      rw [occurs.isNode] at isNode
      contradiction
  | node among shape _ =>
      obtain ⟨few, clean⟩ := sparse_of_shape shape isForm isTerm
      refine ⟨fun child member => ?_, fun bound isBound => ?_, occurs.clean clean⟩
      · obtain ⟨childIn, childIsNode⟩ := List.mem_filter.mp member
        obtain ⟨part, partIn, occursIn⟩ := exists_occurs_of_mem occurs.forall₂_children childIn
        apply isExpression_or_isRaw childIsNode
        rw [occursIn.isNode, Bool.not_eq_true'] at childIsNode
        have held := (among part partIn).resolve_left (by simp [childIsNode])
        rw [occursIn.kind]
        exact isOperand_of_holds isForm isTerm held
      · rw [occurs.length_nodes]
        exact few bound isBound

theorem operands_eq (place : Place) : operands place = place.nodes.filter isExpression := by
  refine List.filter_congr fun child member => ?_
  rw [isExpression, form?, if_pos (List.mem_filter.mp member).2, isExpressionKind]

/-- Where no more nodes can stand than there are operands, the operands are all of
them. -/
theorem nodes_eq_operands {bound : Nat} (parts : Parts form place)
    (isBound : form.capacity? = some bound) (enough : bound ≤ (operands place).length) :
    place.nodes = operands place := by
  have few := parts.few bound isBound
  have sublist : (operands place).Sublist place.nodes := List.filter_sublist
  exact (sublist.eq_of_length_le (by omega)).symm

theorem pairwise_among (kind : Kind) (outer : List Crumb) (before trees : List Tree) :
    (among kind outer before trees).Pairwise fun first second => first.stop ≤ second.start := by
  induction trees generalizing before with
  | nil => exact .nil
  | cons tree after ih =>
      refine .cons (fun later member => ?_) (ih (tree :: before))
      obtain ⟨earlier, other, behind, -, rfl⟩ := mem_among member
      simp only [Place.stop, start, Place.length, Crumb.offset, Tree.totalLength_append,
        Tree.totalLength]
      omega

theorem pairwise_children (place : Place) :
    place.children.Pairwise fun first second => first.stop ≤ second.start := by
  obtain ⟨focus, above⟩ := place
  cases focus with
  | token => exact .nil
  | node kind trees => exact pairwise_among kind above [] trees

end Place

namespace View.Expression

/-- How the operands of a binary expression stand around its operator.  Behind a left
operand that is no expression there is at most one operand, which counts as the first. -/
structure OperandsAround (place operator left : Place) : Prop where
  isOperator : infixOperator? place = some operator
  isLeft : place.children.head? = some left
  before : left.stop ≤ operator.start
  known : isExpression left = true → first? place = some left
  missing : isExpression left = false →
    isRaw left = true ∧ second? place = none ∧
      ∀ first, first? place = some first → operator.stop ≤ first.start
  behind : ∀ right, second? place = some right → operator.stop ≤ right.start

end View.Expression

namespace Place

variable {source : Bytes} {place : Place} {form : Form}

theorem isToken_eq_not (place : Place) : place.isToken = !place.isNode :=
  rfl

theorem not_isTrivia_of_infixPower? {kind : Kind} {text : Bytes} {power : Nat}
    (found : Operator.infixPower? kind text = some power) : kind.isTrivia = false := by
  unfold Operator.infixPower? at found
  split at found <;> first | rfl | contradiction

theorem not_isTrivia_of_part (part : isExpression place = true ∨ isRaw place = true) :
    place.isTrivia = false := by
  rw [isExpression, form?, isRaw] at part
  rw [isTrivia]
  split at part
  · revert part
    cases place.kind <;> simp [Form.ofKind?, Kind.isTrivia]
  · simp_all

section

variable {left operator : Place} {gap behind : List Place} (parts : Parts form place)
  (split : place.children = left :: (gap ++ operator :: behind))
  (leftNode : left.isNode = true) (trivial : ∀ child ∈ gap, child.isTrivia = true)
  (isToken : operator.isToken = true)
include split leftNode trivial isToken

/-- The operator is the first token other than trivia. -/
theorem infixOperator?_of_split (notTrivia : operator.isTrivia = false) :
    infixOperator? place = some operator := by
  have skipped : gap.find?
      (fun child => decide ((!child.isTrivia) = true ∧ child.isToken = true)) = none :=
    List.find?_eq_none.mpr fun child member => by simp [trivial child member]
  rw [infixOperator?, significant, List.find?_filter, split,
    List.find?_cons_of_neg (by simp [isToken_eq_not, leftNode]), List.find?_append, skipped,
    List.find?_cons_of_pos (by simp [notTrivia, isToken])]
  rfl

include parts

/-- Nothing but trivia stands in front of the operator, so the nodes other than the left
one stand behind it. -/
theorem nodes_of_split : place.nodes = left :: behind.filter Place.isNode := by
  have noNodes : gap.filter Place.isNode = [] := by
    refine List.filter_eq_nil_iff.mpr fun child member childNode => ?_
    have childIn : child ∈ place.children := by simp [split, member]
    have part := parts.node child (List.mem_filter.mpr ⟨childIn, childNode⟩)
    have isTrivia := trivial child member
    rw [not_isTrivia_of_part part] at isTrivia
    contradiction
  have notNode : operator.isNode = false := by simpa [isToken_eq_not] using isToken
  rw [Place.nodes, split, List.filter_cons_of_pos leftNode, List.filter_append, noNodes,
    List.filter_cons_of_neg (by simp [notNode]), List.nil_append]

end

theorem exists_operandsAround (parts : Parts .binary place)
    (respects : RespectsPowers source place) (isNode : place.isNode = true)
    (isBinary : place.kind = .binaryExpr) :
    ∃ operator left, OperandsAround place operator left := by
  obtain ⟨left, gap, operator, behind, power, split, leftNode, trivial, isToken, isInfix, -⟩ :=
    respects.binary isNode isBinary
  have apart := split ▸ pairwise_children place
  obtain ⟨leftBefore, restApart⟩ := List.pairwise_cons.mp apart
  obtain ⟨-, operatorApart, -⟩ := List.pairwise_append.mp restApart
  obtain ⟨operatorBefore, -⟩ := List.pairwise_cons.mp operatorApart
  have nodes := nodes_of_split parts split leftNode trivial isToken
  have operands := operands_eq place
  rw [nodes] at operands
  have late {child : Place}
      (member : child ∈ (behind.filter Place.isNode).filter isExpression) :
      operator.stop ≤ child.start :=
    operatorBefore child (List.mem_filter.mp (List.mem_filter.mp member).1).1
  have isOperator := infixOperator?_of_split split leftNode trivial isToken
    (not_isTrivia_of_infixPower? isInfix)
  refine ⟨operator, left, isOperator, by rw [split]; rfl, leftBefore operator (by simp), ?_, ?_, ?_⟩
  · intro isExpression
    rw [List.filter_cons_of_pos isExpression] at operands
    rw [first?, operands]
    rfl
  · intro notExpression
    rw [List.filter_cons_of_neg (by simp [notExpression])] at operands
    have few := parts.few 2 rfl
    have fewer := List.length_filter_le isExpression (behind.filter Place.isNode)
    rw [nodes, List.length_cons] at few
    refine ⟨(parts.node left (by simp [nodes])).resolve_left (by simp [notExpression]), ?_, ?_⟩
    · rw [second?, operands, List.getElem?_eq_none (by omega)]
    · intro first isFirst
      rw [first?, operands] at isFirst
      exact late (List.mem_of_getElem? isFirst)
  · intro right isSecond
    rw [second?, operands, List.filter_cons] at isSecond
    split at isSecond
    · rw [List.getElem?_cons_succ] at isSecond
      exact late (List.mem_of_getElem? isSecond)
    · exact late (List.mem_of_getElem? isSecond)

end Place

namespace Parse

/-- In the tree of every text a binary expression has its operator between what stands
for its operands, and what the views take for the second one follows it.  So does the
first one where something else than an expression stands to the left. -/
theorem ofText_places_operands (dialect : Dialect) (text : Bytes) {place : Place}
    (member : place ∈ (ofText dialect text).places) (isNode : place.isNode = true)
    (isBinary : place.kind = .binaryExpr) :
    ∃ operator left, OperandsAround place operator left := by
  rw [ofText_of_le (length_le_of_mem_places member (by simp [isBinary]))] at member
  obtain ⟨settled, tail, reports, writtenAs⟩ := exists_writtenAs dialect text
  rw [places, writtenAs.root] at member
  obtain ⟨written, occurs⟩ := exists_occurs_of_mem_preorder member
  have standing := occurs.standing writtenAs.standing
  have formed := standing.formed (by rw [← occurs.kind, isBinary]; rfl)
  have isForm : form? place = some .binary := by
    rw [form?, if_pos isNode, isBinary]
    rfl
  exact exists_operandsAround (occurs.parts formed isForm rfl)
    (occurs.respectsPowers standing) isNode isBinary

/-- A hash where the left operand of a sum should be. -/
def hashSum : Bytes := Bytes.ascii ".byte #+1\n"

def hashSumPlace : Place :=
  ⟨.node .binaryExpr [.node .errorNode [.token .hash 1], .token .plus 1,
      .node .numberLiteral [.token .number 1]],
    [⟨.directive, [.token .whitespace 1, .token .directiveKw 5], []⟩,
      ⟨.line, [], [.token .eol 1]⟩, ⟨.sourceFile, [], []⟩]⟩

theorem ofText_places_operands_hashSum :
    hashSumPlace ∈ (ofText .stock hashSum).places ∧ hashSumPlace.isNode = true ∧
      hashSumPlace.kind = .binaryExpr ∧
        ∃ operator left, OperandsAround hashSumPlace operator left := by
  have member : hashSumPlace ∈ (ofText .stock hashSum).places := by decide +kernel
  exact ⟨member, rfl, rfl, ofText_places_operands .stock hashSum member rfl rfl⟩

/-- What the views take for the left operand of the sum stands behind its operator. -/
theorem left_operand_behind_operator :
    ¬∀ (dialect : Dialect) (text : Bytes) (place : Place),
      place ∈ (ofText dialect text).places → place.isNode = true →
        place.kind = .binaryExpr →
          ∃ operator, infixOperator? place = some operator ∧
            (∀ left, first? place = some left → left.stop ≤ operator.start) ∧
              ∀ right, second? place = some right → operator.stop ≤ right.start := by
  intro respects
  obtain ⟨operator, isOperator, before, -⟩ := respects .stock hashSum hashSumPlace
    (by decide +kernel) rfl rfl
  have here : (infixOperator? hashSumPlace).map Place.start = some 7 := by decide +kernel
  have there : (first? hashSumPlace).map Place.stop = some 9 := by decide +kernel
  obtain ⟨left, isLeft, ends⟩ := Option.map_eq_some_iff.mp there
  have ordered := before left isLeft
  rw [isOperator, Option.map_some, Option.some_inj] at here
  omega

end Parse
end Asm6502
