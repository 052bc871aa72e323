import Asm6502.Proofs.SpacedTokens
import Asm6502.Proofs.WrittenTrees
import Mathlib.Data.List.Forall2

/-!
# Terms

Expressions as such, before they are printed.  A term is printed with single spaces
between its tokens, and it says which tree it expects to be read as.  A term fits if
it needs no other parentheses than it has.
-/

namespace Asm6502

section

variable {α β : Type} {separator : α}

/-- The elements, each with the separator in front of it. -/
def preceded (separator : α) (elements : List α) : List α :=
  elements.flatMap fun element => [separator, element]

theorem intersperse_cons (separator first : α) (rest : List α) :
    (first :: rest).intersperse separator = first :: preceded separator rest := by
  induction rest generalizing first with
  | nil => rfl
  | cons second rest ih =>
      rw [List.intersperse_cons_cons, ih]
      rfl

theorem preceded_append (separator : α) (first second : List α) :
    preceded separator (first ++ second) =
      preceded separator first ++ preceded separator second :=
  List.flatMap_append

theorem length_preceded (separator : α) (elements : List α) :
    (preceded separator elements).length = 2 * elements.length := by
  induction elements with
  | nil => rfl
  | cons element rest ih =>
      have split : preceded separator (element :: rest) =
          [separator, element] ++ preceded separator rest := rfl
      simp only [split, List.length_append, ih, List.length_cons, List.length_nil]
      omega

theorem intersperse_append {first : List α} (nonempty : first ≠ []) (second : List α) :
    (first ++ second).intersperse separator =
      first.intersperse separator ++ preceded separator second := by
  obtain ⟨element, rest, rfl⟩ := List.exists_cons_of_ne_nil nonempty
  rw [List.cons_append, intersperse_cons, intersperse_cons, preceded_append, List.cons_append]

theorem map_preceded (f : α → β) (elements : List α) :
    (preceded separator elements).map f = preceded (f separator) (elements.map f) := by
  simp [preceded, List.map_flatMap, List.flatMap_map]

theorem map_intersperse (f : α → β) (elements : List α) :
    (elements.intersperse separator).map f = (elements.map f).intersperse (f separator) := by
  cases elements with
  | nil => rfl
  | cons first rest =>
      rw [intersperse_cons, List.map_cons, List.map_cons, intersperse_cons, map_preceded]

theorem filter_preceded {keeps : α → Bool} {elements : List α} (dropped : keeps separator = false)
    (kept : ∀ element ∈ elements, keeps element = true) :
    (preceded separator elements).filter keeps = elements := by
  induction elements with
  | nil => rfl
  | cons element rest ih =>
      have split : preceded separator (element :: rest) =
          separator :: element :: preceded separator rest := rfl
      rw [split, List.filter_cons_of_neg (by simp [dropped]),
        List.filter_cons_of_pos (kept element (by simp)),
        ih fun other member => kept other (by simp [member])]

theorem filter_intersperse {keeps : α → Bool} {elements : List α}
    (dropped : keeps separator = false) (kept : ∀ element ∈ elements, keeps element = true) :
    (elements.intersperse separator).filter keeps = elements := by
  cases elements with
  | nil => rfl
  | cons element rest =>
      rw [intersperse_cons, List.filter_cons_of_pos (kept element (by simp)),
        filter_preceded dropped fun other member => kept other (by simp [member])]

end

/-- An operand that is a single token. -/
inductive Atom where
  | number | character | string | localLabel | unnamedLabel | pseudoVariable
deriving DecidableEq, Repr

namespace Atom

def nodeKind : Atom → Kind
  | .number => .numberLiteral
  | .character => .charLiteral
  | .string => .stringLiteral
  | .localLabel => .localLabelRef
  | .unnamedLabel => .unnamedLabelRef
  | .pseudoVariable => .pseudoVar

/-- Whether a token of the kind can be the operand. -/
def accepts : Atom → Kind → Bool
  | .number, kind => kind == .number
  | .character, kind => kind == .char
  | .string, kind => kind == .string
  | .localLabel, kind => kind == .localIdent
  | .unnamedLabel, kind => kind == .unnamedRef
  | .pseudoVariable, kind => kind == .pseudoVarKw || kind == .star

end Atom

/-- An expression.  The parts of a name are its words, with the scope operator
between them, and in front of the first one if the name is rooted. -/
inductive Term where
  | atom (form : Atom) (token : Token)
  | name (rooted : Bool) (first : Token) (inner : List Token)
  | parens (inner : Term)
  | prefixed (operator : Token) (operand : Term)
  | infixed (left : Term) (operator : Token) (right : Term)
  | call (function : Token) (arguments : List Term)

namespace Term

/-- Induction over a term, with the arguments of a call as a list. -/
@[elab_as_elim]
theorem induct {motive : Term → Prop}
    (atom : ∀ form token, motive (.atom form token))
    (name : ∀ rooted first inner, motive (.name rooted first inner))
    (parens : ∀ inner, motive inner → motive (.parens inner))
    (prefixed : ∀ operator operand, motive operand → motive (.prefixed operator operand))
    (infixed : ∀ left operator right,
      motive left → motive right → motive (.infixed left operator right))
    (call : ∀ function arguments,
      (∀ argument ∈ arguments, motive argument) → motive (.call function arguments)) :
    ∀ term, motive term
  | .atom form token => atom form token
  | .name rooted first inner => name rooted first inner
  | .parens inner => parens inner (induct atom name parens prefixed infixed call inner)
  | .prefixed operator operand =>
      prefixed operator operand (induct atom name parens prefixed infixed call operand)
  | .infixed left operator right =>
      infixed left operator right (induct atom name parens prefixed infixed call left)
        (induct atom name parens prefixed infixed call right)
  | .call function arguments =>
      call function arguments fun argument _ =>
        induct atom name parens prefixed infixed call argument

def scope : Token := ⟨.colon2, Bytes.ascii "::"⟩

def opening : Token := ⟨.leftParen, Bytes.ascii "("⟩

def closing : Token := ⟨.rightParen, Bytes.ascii ")"⟩

def comma : Token := ⟨.comma, Bytes.ascii ","⟩

def nameTokens (rooted : Bool) (first : Token) (inner : List Token) : List Token :=
  (if rooted then [scope] else []) ++ first :: preceded scope inner

mutual

/-- The tokens of a term from left to right. -/
def tokens : Term → List Token
  | .atom _ token => [token]
  | .name rooted first inner => nameTokens rooted first inner
  | .parens inner => opening :: (inner.tokens ++ [closing])
  | .prefixed operator operand => operator :: operand.tokens
  | .infixed left operator right => left.tokens ++ operator :: right.tokens
  | .call function arguments =>
      function :: opening :: (List.intercalate [comma] (listTokens arguments) ++ [closing])

def listTokens : List Term → List (List Token)
  | [] => []
  | term :: rest => term.tokens :: listTokens rest

end

def print (term : Term) : Bytes :=
  Token.print term.tokens

/-- Parts of a node with single spaces between them. -/
def spaced (parts : List Written) : List Written :=
  parts.intersperse (.leaf Token.space)

/-- Only a single word that is not rooted is a plain name. -/
def nameKind (rooted : Bool) (inner : List Token) : Kind :=
  if rooted || !inner.isEmpty then .member else .identifier

mutual

def written : Term → Written
  | .atom form token => .node form.nodeKind [.leaf token]
  | .name rooted first inner =>
      .node (nameKind rooted inner) (spaced ((nameTokens rooted first inner).map .leaf))
  | .parens inner => .node .parenExpr (spaced [.leaf opening, inner.written, .leaf closing])
  | .prefixed operator operand => .node .unaryExpr (spaced [.leaf operator, operand.written])
  | .infixed left operator right =>
      .node .binaryExpr (spaced [left.written, .leaf operator, right.written])
  | .call function arguments =>
      .node .callExpr (spaced (.leaf function :: .leaf opening ::
        ((listWritten arguments).intersperse (.leaf comma) ++ [.leaf closing])))

def listWritten : List Term → List Written
  | [] => []
  | term :: rest => term.written :: listWritten rest

end

def power? : Term → Option Nat
  | .infixed _ operator _ => Operator.infixPower? operator.kind operator.text
  | _ => none

/-- A logical negation stands at the top or along the right edge. -/
def EndsInNegation : Term → Prop
  | .prefixed operator operand =>
      Operator.prefixPower? operator.kind operator.text = some Operator.negationPower ∨
        operand.EndsInNegation
  | .infixed _ _ right => right.EndsInNegation
  | _ => False

/-- The tokens of a term are what they are meant to be, and its operations nest as
the powers of their operators ask for. -/
inductive Fits (dialect : Dialect) : Term → Prop
  | atom {form : Atom} {token : Token} :
      form.accepts token.kind = true → token.StandsAlone dialect → Fits dialect (.atom form token)
  | name {rooted : Bool} {first : Token} {inner : List Token} :
      (∀ word ∈ first :: inner, word.kind = .ident ∧ word.StandsAlone dialect) →
        Fits dialect (.name rooted first inner)
  | parens {inner : Term} : Fits dialect inner → Fits dialect (.parens inner)
  | prefixed {operator : Token} {operand : Term} {power : Nat} :
      operator.StandsAlone dialect →
        Operator.prefixPower? operator.kind operator.text = some power →
          (power ≠ Operator.negationPower → operand.power? = none) →
            Fits dialect operand → Fits dialect (.prefixed operator operand)
  | infixed {left right : Term} {operator : Token} {power : Nat} :
      operator.StandsAlone dialect →
        Operator.infixPower? operator.kind operator.text = some power →
          (∀ inner, left.power? = some inner → power ≤ inner) → ¬ left.EndsInNegation →
            (∀ inner, right.power? = some inner → power < inner) →
              Fits dialect left → Fits dialect right →
                Fits dialect (.infixed left operator right)
  | call {function : Token} {arguments : List Term} :
      function.kind = .pseudoFnKw → function.StandsAlone dialect →
        (∀ argument ∈ arguments, Fits dialect argument) →
          Fits dialect (.call function arguments)

theorem listTokens_eq_map (terms : List Term) : listTokens terms = terms.map tokens := by
  induction terms with
  | nil => rfl
  | cons term rest ih => rw [listTokens, ih, List.map_cons]

theorem listWritten_eq_map (terms : List Term) : listWritten terms = terms.map written := by
  induction terms with
  | nil => rfl
  | cons term rest ih => rw [listWritten, ih, List.map_cons]

theorem spaced_leaves (tokens : List Token) :
    spaced (tokens.map .leaf) = (tokens.intersperse Token.space).map .leaf :=
  (map_intersperse Written.leaf tokens).symm

/-- What is written has these tokens, with spaces between them. -/
def Prints (part : Written) (tokens : List Token) : Prop :=
  ∃ first rest, tokens = first :: rest ∧ part.tokens = first :: preceded Token.space rest

theorem prints_leaf (token : Token) : Prints (.leaf token) [token] :=
  ⟨token, [], rfl, rfl⟩

theorem Prints.tokens_eq {part : Written} {list : List Token} (prints : Prints part list) :
    part.tokens = list.intersperse Token.space := by
  obtain ⟨first, rest, tokens, written⟩ := prints
  rw [tokens, written, intersperse_cons]

theorem allTokens_preceded {parts : List Written} {lists : List (List Token)}
    (prints : List.Forall₂ Prints parts lists) :
    Written.allTokens (preceded (.leaf Token.space) parts) =
      preceded Token.space lists.flatten := by
  induction prints with
  | nil => rfl
  | @cons part list _ _ here _ ih =>
      obtain ⟨first, rest, rfl, tokens⟩ := here
      have split (others : List Written) : preceded (.leaf Token.space) (part :: others) =
          [.leaf Token.space, part] ++ preceded (.leaf Token.space) others := rfl
      rw [split, Written.allTokens_append, ih, List.flatten_cons, preceded_append]
      simp [Written.allTokens, Written.tokens, tokens, preceded]

theorem prints_node {kind : Kind} {parts : List Written} {list : List Token}
    {lists : List (List Token)} (prints : List.Forall₂ Prints parts lists)
    (nonempty : parts ≠ []) (split : lists.flatten = list) :
    Prints (.node kind (spaced parts)) list := by
  subst split
  cases prints with
  | nil => contradiction
  | @cons part _ parts lists here behind =>
      obtain ⟨first, rest, rfl, tokens⟩ := here
      refine ⟨first, rest ++ lists.flatten, rfl, ?_⟩
      rw [Written.tokens_node, spaced, intersperse_cons, Written.allTokens, tokens,
        allTokens_preceded behind, preceded_append]
      rfl

theorem prints_leaves (tokens : List Token) :
    List.Forall₂ Prints (tokens.map .leaf) (tokens.map fun token => [token]) := by
  induction tokens with
  | nil => exact .nil
  | cons token rest ih => exact .cons (prints_leaf token) ih

theorem prints_preceded {parts : List Written} {lists : List (List Token)}
    (prints : List.Forall₂ Prints parts lists) :
    List.Forall₂ Prints (preceded (.leaf comma) parts) (preceded [comma] lists) := by
  induction prints with
  | nil => exact .nil
  | cons here _ ih => exact .cons (prints_leaf comma) (.cons here ih)

theorem prints_intersperse {parts : List Written} {lists : List (List Token)}
    (prints : List.Forall₂ Prints parts lists) :
    List.Forall₂ Prints (parts.intersperse (.leaf comma)) (lists.intersperse [comma]) := by
  cases prints with
  | nil => exact .nil
  | cons here behind =>
      rw [intersperse_cons, intersperse_cons]
      exact .cons here (prints_preceded behind)

theorem prints_written (term : Term) : Prints term.written term.tokens := by
  induction term using Term.induct with
  | atom form token => exact ⟨token, [], rfl, rfl⟩
  | name rooted first inner =>
      refine prints_node (prints_leaves _) (by simp [nameTokens]) ?_
      rw [← List.flatMap_def, List.flatMap_singleton', tokens]
  | parens inner ih =>
      exact prints_node (.cons (prints_leaf _) (.cons ih (.cons (prints_leaf _) .nil)))
        (by simp) (by simp [tokens])
  | prefixed operator operand ih =>
      exact prints_node (.cons (prints_leaf _) (.cons ih .nil)) (by simp) (by simp [tokens])
  | infixed left operator right first second =>
      exact prints_node (.cons first (.cons (prints_leaf _) (.cons second .nil)))
        (by simp) (by simp [tokens])
  | call function arguments ih =>
      have each : List.Forall₂ Prints (arguments.map written) (arguments.map tokens) := by
        rw [List.forall₂_map_left_iff, List.forall₂_map_right_iff, List.forall₂_same]
        exact ih
      rw [written, listWritten_eq_map]
      refine prints_node (.cons (prints_leaf _) (.cons (prints_leaf _)
        (List.rel_append (prints_intersperse each) (.cons (prints_leaf _) .nil)))) (by simp) ?_
      simp [tokens, listTokens_eq_map, List.intercalate]

theorem tokens_written (term : Term) :
    term.written.tokens = term.tokens.intersperse Token.space :=
  (prints_written term).tokens_eq

variable {dialect : Dialect} {term other : Term}

theorem standsAlone_scope : scope.StandsAlone dialect := ⟨rfl, rfl⟩

theorem standsAlone_opening : opening.StandsAlone dialect := ⟨rfl, rfl⟩

theorem standsAlone_closing : closing.StandsAlone dialect := ⟨rfl, rfl⟩

theorem standsAlone_comma : comma.StandsAlone dialect := ⟨rfl, rfl⟩

theorem mem_preceded {α : Type} {separator element : α} {elements : List α}
    (member : element ∈ preceded separator elements) :
    element = separator ∨ element ∈ elements := by
  obtain ⟨other, otherIn, isPart⟩ := List.mem_flatMap.mp member
  rcases List.mem_cons.mp isPart with rfl | isOther
  · exact .inl rfl
  · exact .inr (List.mem_singleton.mp isOther ▸ otherIn)

theorem mem_intersperse {α : Type} {separator element : α} {elements : List α}
    (member : element ∈ elements.intersperse separator) :
    element = separator ∨ element ∈ elements := by
  cases elements with
  | nil => contradiction
  | cons first rest =>
      rw [intersperse_cons] at member
      rcases List.mem_cons.mp member with rfl | behind
      · exact .inr List.mem_cons_self
      · exact (mem_preceded behind).imp_right (List.mem_cons_of_mem _)

theorem mem_nameTokens {rooted : Bool} {first token : Token} {inner : List Token}
    (member : token ∈ nameTokens rooted first inner) : token = scope ∨ token ∈ first :: inner := by
  rcases List.mem_append.mp member with early | late
  · cases rooted with
    | true => exact .inl (List.mem_singleton.mp early)
    | false => contradiction
  · exact mem_intersperse (intersperse_cons scope first inner ▸ late)

theorem Fits.standsAlone (fits : term.Fits dialect) :
    ∀ token ∈ term.tokens, token.StandsAlone dialect := by
  induction fits with
  | atom _ alone =>
      intro token member
      obtain rfl := List.mem_singleton.mp member
      exact alone
  | name words =>
      intro token member
      rcases mem_nameTokens member with rfl | isWord
      · exact standsAlone_scope
      · exact (words token isWord).2
  | @parens inner _ ih =>
      intro token member
      have cases : token = opening ∨ token ∈ inner.tokens ∨ token = closing := by
        simpa [tokens] using member
      rcases cases with rfl | inside | rfl
      · exact standsAlone_opening
      · exact ih token inside
      · exact standsAlone_closing
  | prefixed alone _ _ _ ih =>
      intro token member
      rcases List.mem_cons.mp member with rfl | behind
      · exact alone
      · exact ih token behind
  | infixed alone _ _ _ _ _ _ first second =>
      intro token member
      rcases List.mem_append.mp member with before | late
      · exact first token before
      · rcases List.mem_cons.mp late with rfl | behind
        · exact alone
        · exact second token behind
  | @call function arguments _ alone _ ih =>
      intro token member
      have cases : token = function ∨ token = opening ∨
          token ∈ List.intercalate [comma] (arguments.map tokens) ∨ token = closing := by
        simpa [tokens, listTokens_eq_map] using member
      rcases cases with rfl | rfl | inside | rfl
      · exact alone
      · exact standsAlone_opening
      · obtain ⟨list, listIn, inList⟩ := List.mem_flatten.mp inside
        rcases mem_intersperse listIn with rfl | isTokens
        · obtain rfl := List.mem_singleton.mp inList
          exact standsAlone_comma
        · obtain ⟨argument, argumentIn, rfl⟩ := List.mem_map.mp isTokens
          exact ih argument argumentIn token inList
      · exact standsAlone_closing

theorem Fits.exists_first (fits : term.Fits dialect) :
    ∃ first rest, term.tokens = first :: rest ∧ first.isTrivia = false ∧
      first.kind.endsLine = false ∧ first.kind ≠ .rightParen := by
  have significant {first : Token} {rest : List Token} {term : Term}
      (fits : term.Fits dialect) (tokens : term.tokens = first :: rest) :
      first.isTrivia = false :=
    (fits.standsAlone first (by rw [tokens]; exact List.mem_cons_self)).not_isTrivia
  have whole := fits
  induction fits with
  | @atom form token accepts =>
      refine ⟨token, [], rfl, significant whole rfl, ?_⟩
      cases form with
      | pseudoVariable =>
          simp only [Atom.accepts, Bool.or_eq_true, beq_iff_eq] at accepts
          rcases accepts with kind | kind
          all_goals
            rw [kind]
            decide
      | _ =>
          simp only [Atom.accepts, beq_iff_eq] at accepts
          rw [accepts]
          decide
  | @name rooted first inner words =>
      cases rooted with
      | true => exact ⟨scope, _, rfl, rfl, by decide⟩
      | false =>
          refine ⟨first, _, rfl, significant whole rfl, ?_⟩
          rw [(words first List.mem_cons_self).1]
          decide
  | parens => exact ⟨opening, _, rfl, rfl, by decide⟩
  | @prefixed operator operand power _ found =>
      refine ⟨operator, _, rfl, significant whole rfl, ?_⟩
      generalize operator.kind = kind at found
      unfold Operator.prefixPower? at found
      split at found
      all_goals first | contradiction | decide
  | @infixed left right operator _ _ _ _ _ _ fits _ ih =>
      obtain ⟨first, rest, tokens, properties⟩ := ih fits
      exact ⟨first, rest ++ operator :: right.tokens, by rw [Term.tokens, tokens]; rfl,
        properties⟩
  | @call function _ isFunction =>
      refine ⟨function, _, rfl, significant whole rfl, ?_⟩
      rw [isFunction]
      decide

def form : Term → Nat
  | .atom _ _ => 0
  | .name _ _ _ => 1
  | .parens _ => 2
  | .prefixed _ _ => 3
  | .infixed _ _ _ => 4
  | .call _ _ => 5

end Term
end Asm6502
