import Asm6502.Proofs.ExpressionParts
import Asm6502.Proofs.PlaceNeighbours

/-!
# What a value is made of

An expression that has a value is put together from literals, operators and calls of
functions: no name stands in it and no macro is called.  Parentheses and operators
take all the operands that stand in them, so faults leave them without a value.  A call
takes the only expression among what stands in it, whatever else that is.
-/

namespace Asm6502

open Place

namespace View.Expression

/-- An error, or a list in braces. -/
def isFault (place : Place) : Bool :=
  isRaw place || (place.isToken && place.kind == .errorToken)

/-- What a call of a function leaves out: neither its name nor its only argument. -/
def IsLeftOut (place : Place) : Prop :=
  isRaw place = true ∧
    ∃ call argument, place.parent? = some call ∧ form? call = some .call ∧
      operands call = [argument]

/-- No name stands in an expression and no macro is called, and where a fault stands in
it a call leaves it out. -/
structure Understood (place : Place) : Prop where
  known : ∀ part ∈ place.preorder, form? part ≠ some .name ∧ form? part ≠ some .macroCall
  leftOut : ∀ part ∈ place.preorder, isFault part = true →
    ∃ raw ∈ place.preorder, IsLeftOut raw ∧ part ∈ raw.preorder

/-- Expressions have the parts they can have, and raw nodes hold nothing but tokens. -/
structure WellParted (place : Place) : Prop where
  parts : ∀ form, form? place = some form → form.isTerm = true → Parts form place
  raw : isRaw place = true → ∀ child ∈ place.children, child.isToken = true

end View.Expression

open View View.Expression

theorem Written.Formed.among {dialect : Dialect} {written : Written}
    (formed : written.Formed dialect) :
    ∀ part ∈ written.children, part.Among written.kind.holds := by
  cases formed with
  | leaf => simp [Written.children]
  | node among _ _ => exact among

namespace Place

variable {place child first second : Place} {form : Form}

theorem form?_eq_none_of_isToken (isToken : place.isToken = true) : form? place = none := by
  rw [isToken_eq_not, Bool.not_eq_true'] at isToken
  rw [form?, isToken]
  rfl

theorem kind_of_isRaw (isRaw : isRaw place = true) :
    place.kind = .errorNode ∨ place.kind = .macroArg := by
  simpa using (Bool.and_eq_true_iff.mp isRaw).2

theorem form?_eq_none_of_isRaw (isRaw : isRaw place = true) : form? place = none := by
  rcases kind_of_isRaw isRaw with isError | isList
  · rw [form?, isError]
    exact ite_self _
  · rw [form?, isList]
    exact ite_self _

theorem preorder_of_isToken (isToken : place.isToken = true) : place.preorder = [place] := by
  obtain ⟨focus, above⟩ := place
  cases focus with
  | token => rfl
  | node => contradiction

/-- What stands at or below a place that holds nothing but tokens has no form. -/
theorem form?_eq_none_of_tokens (tokens : ∀ child ∈ place.children, child.isToken = true)
    (formless : form? place = none) : ∀ part ∈ place.preorder, form? part = none := by
  intro part member
  rcases mem_preorder_iff.mp member with rfl | ⟨child, childIn, below⟩
  · exact formless
  · rw [preorder_of_isToken (tokens child childIn), List.mem_singleton] at below
    rw [below]
    exact form?_eq_none_of_isToken (tokens child childIn)

theorem nodes_eq_singleton (parts : Parts form place) (isBound : form.capacity? = some 1)
    (isFirst : first? place = some first) : place.nodes = [first] := by
  have few := parts.few 1 isBound
  obtain ⟨more, isFirst⟩ := List.getElem?_eq_some_iff.mp isFirst
  have nodes := nodes_eq_operands parts isBound more
  rw [nodes] at few ⊢
  obtain ⟨only, isOnly⟩ := List.length_eq_one_iff.mp (Nat.le_antisymm few more)
  simp_all

theorem nodes_eq_pair (parts : Parts form place) (isBound : form.capacity? = some 2)
    (isFirst : first? place = some first) (isSecond : second? place = some second) :
    place.nodes = [first, second] := by
  have few := parts.few 2 isBound
  obtain ⟨more, isSecond⟩ := List.getElem?_eq_some_iff.mp isSecond
  have nodes := nodes_eq_operands parts isBound more
  rw [nodes] at few ⊢
  obtain ⟨left, right, isPair⟩ := List.length_eq_two.mp (Nat.le_antisymm few more)
  rw [first?, isPair] at isFirst
  simp_all

theorem below_cases (parts : Parts form place) {part : Place} (childIn : child ∈ place.children)
    (below : part ∈ child.preorder) :
    child ∈ place.nodes ∨ form? part = none ∧ isFault part = false := by
  cases childNode : child.isNode with
  | true => exact .inl (List.mem_filter.mpr ⟨childIn, childNode⟩)
  | false =>
      have isToken : child.isToken = true := by
        rw [isToken_eq_not, childNode]
        rfl
      rw [preorder_of_isToken isToken, List.mem_singleton] at below
      subst below
      have clean := parts.clean part childIn isToken
      refine .inr ⟨form?_eq_none_of_isToken isToken, ?_⟩
      simp [View.Expression.isFault, isRaw, childNode, clean]

theorem isFault_eq_false_of_form? (isForm : form? place = some form) :
    isFault place = false := by
  rw [View.Expression.isFault, Bool.or_eq_false_iff, Bool.and_eq_false_iff]
  constructor
  · by_contra isRaw
    rw [form?_eq_none_of_isRaw (by simpa using isRaw)] at isForm
    contradiction
  · by_contra faulty
    rw [form?_eq_none_of_isToken (by simp_all)] at isForm
    contradiction

theorem understood_of_nodes (isForm : form? place = some form) (isTerm : form.isTerm = true)
    (parts : Parts form place) (sorted : ∀ child ∈ place.children, WellParted child)
    (nodes : ∀ child ∈ place.nodes, Understood child ∨ IsLeftOut child) :
    Understood place := by
  refine ⟨fun part member => ?_, fun part member faulty => ?_⟩
  · rcases mem_preorder_iff.mp member with rfl | ⟨child, childIn, below⟩
    · rw [isForm]
      constructor <;> rintro ⟨⟩ <;> contradiction
    · rcases below_cases parts childIn below with isNode | ⟨formless, -⟩
      · rcases nodes child isNode with understood | leftOut
        · exact understood.known part below
        · rw [form?_eq_none_of_tokens ((sorted child childIn).raw leftOut.1)
            (form?_eq_none_of_isRaw leftOut.1) part below]
          simp
      · simp [formless]
  · rcases mem_preorder_iff.mp member with rfl | ⟨child, childIn, below⟩
    · rw [isFault_eq_false_of_form? isForm] at faulty
      contradiction
    · rcases below_cases parts childIn below with isNode | ⟨-, faultless⟩
      · rcases nodes child isNode with understood | leftOut
        · obtain ⟨raw, rawIn, leftOut, partIn⟩ := understood.leftOut part below faulty
          exact ⟨raw, mem_preorder_iff.mpr (.inr ⟨child, childIn, rawIn⟩), leftOut, partIn⟩
        · have childBelow := mem_preorder_iff.mpr (.inr ⟨child, childIn, mem_preorder_self child⟩)
          exact ⟨child, childBelow, leftOut, below⟩
      · rw [faultless] at faulty
        contradiction

theorem understood_of_single (isForm : form? place = some form) (isTerm : form.isTerm = true)
    (parts : Parts form place) (sorted : ∀ child ∈ place.children, WellParted child)
    (isBound : form.capacity? = some 1) (isFirst : first? place = some first)
    (understood : first ∈ place.nodes → Understood first) : Understood place := by
  have only := nodes_eq_singleton parts isBound isFirst
  refine understood_of_nodes isForm isTerm parts sorted fun child member => .inl ?_
  obtain rfl : child = first := by simpa [only] using member
  exact understood member

theorem understood_of_pair (isForm : form? place = some form) (isTerm : form.isTerm = true)
    (parts : Parts form place) (sorted : ∀ child ∈ place.children, WellParted child)
    (isBound : form.capacity? = some 2) (isFirst : first? place = some first)
    (isSecond : second? place = some second)
    (understood : ∀ child ∈ place.nodes, child = first ∨ child = second → Understood child) :
    Understood place := by
  have pair := nodes_eq_pair parts isBound isFirst isSecond
  refine understood_of_nodes isForm isTerm parts sorted fun child member => .inl ?_
  exact understood child member (by simpa [pair] using member)

/-- A call is understood when its only argument is: it leaves out what is no expression. -/
theorem understood_of_argument {argument : Place} (isForm : form? place = some .call)
    (parts : Parts .call place) (sorted : ∀ child ∈ place.children, WellParted child)
    (isOnly : operands place = [argument])
    (understood : argument ∈ place.nodes → Understood argument) : Understood place := by
  refine understood_of_nodes isForm rfl parts sorted fun child member => ?_
  rcases parts.node child member with isExpression | isRaw
  · have isOperand : child ∈ operands place := by
      rw [operands_eq]
      exact List.mem_filter.mpr ⟨member, isExpression⟩
    rw [isOnly, List.mem_singleton] at isOperand
    subst isOperand
    exact .inl (understood member)
  · exact .inr ⟨isRaw, place, argument,
      parent?_of_mem_children (List.mem_filter.mp member).1, isForm, isOnly⟩

/-- An expression with a value is understood, however deep the value is looked for. -/
theorem understood_of_valueWithin? {top : Place} {source : Bytes}
    (sorted : ∀ part ∈ top.preorder, WellParted part) (levels : Nat) {place : Place}
    (within : place ∈ top.preorder) {value : Int64}
    (folds : valueWithin? source levels place = some value) : Understood place := by
  induction levels generalizing place value with
  | zero => contradiction
  | succ levels ih =>
      have below {child : Place} (member : child ∈ place.children) : child ∈ top.preorder :=
        children_subset_preorder within child member
      have sortedBelow (child : Place) (member : child ∈ place.children) : WellParted child :=
        sorted child (below member)
      have operand {child : Place} (member : child ∈ place.nodes) {result : Int64}
          (folds : valueWithin? source levels child = some result) : Understood child :=
        ih (below (List.mem_filter.mp member).1) folds
      have parts {form : Form} (isForm : form? place = some form) :
          form.isTerm = true → Parts form place :=
        (sorted place within).parts form isForm
      rw [valueWithin?] at folds
      -- Each form has at most as many nodes as folding asks for, so no node is passed over.
      split at folds
      · next isForm =>
          have parts := parts isForm rfl
          have none : place.nodes = [] :=
            List.eq_nil_of_length_eq_zero (Nat.le_zero.mp (parts.few 0 rfl))
          exact understood_of_nodes isForm rfl parts sortedBelow (by simp [none])
      · next isForm =>
          have parts := parts isForm rfl
          obtain ⟨inner, isFirst, folds⟩ := Option.bind_eq_some_iff.mp folds
          exact understood_of_single isForm rfl parts sortedBelow rfl isFirst
            fun member => operand member folds
      · next isForm =>
          have parts := parts isForm rfl
          obtain ⟨inner, isFirst, folds⟩ := Option.bind_eq_some_iff.mp folds
          obtain ⟨result, folds, -⟩ := Option.bind_eq_some_iff.mp folds
          exact understood_of_single isForm rfl parts sortedBelow rfl isFirst
            fun member => operand member folds
      · next isForm =>
          have parts := parts isForm rfl
          obtain ⟨first, isFirst, folds⟩ := Option.bind_eq_some_iff.mp folds
          obtain ⟨left, foldsLeft, folds⟩ := Option.bind_eq_some_iff.mp folds
          obtain ⟨second, isSecond, folds⟩ := Option.bind_eq_some_iff.mp folds
          obtain ⟨right, foldsRight, -⟩ := Option.bind_eq_some_iff.mp folds
          refine understood_of_pair isForm rfl parts sortedBelow rfl isFirst isSecond ?_
          rintro child member (rfl | rfl)
          · exact operand member foldsLeft
          · exact operand member foldsRight
      · next isForm =>
          have parts := parts isForm rfl
          obtain ⟨function, -, folds⟩ := Option.bind_eq_some_iff.mp folds
          split at folds
          · next argument isOnly =>
              obtain ⟨result, folds, -⟩ := Option.bind_eq_some_iff.mp folds
              exact understood_of_argument isForm parts sortedBelow isOnly
                fun member => operand member folds
          · contradiction
      · contradiction
      · contradiction
      · contradiction

theorem isOperand_of_ofKind? {kind : Kind} (isForm : Form.ofKind? kind = some form) :
    kind.isOperand = true := by
  unfold Form.ofKind? at isForm
  split at isForm <;> first | rfl | contradiction

theorem Occurs.wellParted {dialect : Dialect} {root written : Written}
    (occurs : Occurs root place written) (standing : Standing dialect written) :
    WellParted place where
  parts form isForm isTerm := by
    have isOperand : place.kind.isOperand = true := by
      rw [form?] at isForm
      split at isForm
      · exact isOperand_of_ofKind? isForm
      · contradiction
    have inner := Kind.not_isOuter_of_isOperand isOperand
    rw [occurs.kind] at inner
    exact occurs.parts (standing.formed inner) isForm isTerm
  raw isRaw child childIn := by
    obtain ⟨inner, holdsNothing⟩ : place.kind.isOuter = false ∧
        ∀ kind, place.kind.holds kind = false := by
      rcases kind_of_isRaw isRaw with isError | isList
      · rw [isError]
        exact ⟨rfl, fun _ => rfl⟩
      · rw [isList]
        exact ⟨rfl, fun _ => rfl⟩
    rw [occurs.kind] at inner holdsNothing
    obtain ⟨part, partIn, occursIn⟩ := exists_occurs_of_mem occurs.forall₂_children childIn
    rw [occursIn.isToken]
    have held := (standing.formed inner).among part partIn
    exact held.resolve_right (by simp [holdsNothing])

end Place

namespace Parse

/-- In the tree of every text an expression that has a value is understood: it is made of
literals and operators, but for what a call leaves out. -/
theorem ofText_understands_values (dialect : Dialect) (text : Bytes) {place : Place}
    (member : place ∈ (ofText dialect text).places) {value : Int64}
    (folds : value? text place = some value) : Understood place := by
  rcases ofText_cases dialect text with ⟨-, read⟩ | ⟨-, refused⟩
  case inr =>
    rw [refused, places_rejected, List.mem_singleton] at member
    subst member
    contradiction
  rw [read] at member
  obtain ⟨settled, tail, reports, writtenAs⟩ := exists_writtenAs dialect text
  refine understood_of_valueWithin? (fun part partIn => ?_) (maxDepth + 1) member folds
  rw [writtenAs.root] at partIn
  obtain ⟨written, occurs⟩ := exists_occurs_of_mem_preorder partIn
  exact occurs.wellParted (occurs.standing writtenAs.standing)

/-- A call with a list in braces in front of its argument. -/
def bracedCall : Bytes := Bytes.ascii ".byte .lobyte(\x7bx\x7d,1)\n"

def bracedCallPlace : Place :=
  ⟨.node .callExpr [.token .pseudoFnKw 7, .token .leftParen 1,
      .node .macroArg [.token .leftBrace 1, .token .register 1, .token .rightBrace 1],
      .token .comma 1, .node .numberLiteral [.token .number 1], .token .rightParen 1],
    [⟨.directive, [.token .whitespace 1, .token .directiveKw 5], []⟩,
      ⟨.line, [], [.token .eol 1]⟩, ⟨.sourceFile, [], []⟩]⟩

theorem ofText_understands_values_bracedCall :
    bracedCallPlace ∈ (ofText .stock bracedCall).places ∧
      value? bracedCall bracedCallPlace = some 1 ∧ Understood bracedCallPlace := by
  have member : bracedCallPlace ∈ (ofText .stock bracedCall).places := by decide +kernel
  have folds : value? bracedCall bracedCallPlace = some 1 := by decide +kernel
  exact ⟨member, folds, ofText_understands_values .stock bracedCall member folds⟩

/-- The call has a value, although a list in braces stands in it. -/
theorem value_despite_braces :
    ¬∀ (dialect : Dialect) (text : Bytes) (place : Place) (value : Int64),
      place ∈ (ofText dialect text).places → value? text place = some value →
        ∀ part ∈ place.preorder, isFault part = false ∧ form? part ≠ some .name ∧
          form? part ≠ some .macroCall := by
  intro understands
  have clean := understands .stock bracedCall bracedCallPlace 1 (by decide +kernel)
    (by decide +kernel)
  exact absurd clean (by decide +kernel)

end Parse
end Asm6502
