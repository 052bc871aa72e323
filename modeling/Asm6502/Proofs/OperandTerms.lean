import Asm6502.Proofs.OperandParentheses
import Asm6502.Proofs.PrintedTerms
import Asm6502.Proofs.Spellings
import Asm6502.View.Operand

/-!
# Operands of instructions as terms

An operand is an address with marks around it: a `#`, a size in front, parentheses or an
index.  It is printed with single spaces between its tokens, and the grammar takes it as
one node in which the marks stand beside the tree of the address.
-/

namespace Asm6502

open Draft Written

open View (AddressSize IndexRegister)

/-- Elsewhere `a` is a register. -/
def sizeSigns : List (Token × AddressSize) :=
  [(⟨.register, Bytes.ascii "a"⟩, .absolute), (⟨.register, Bytes.ascii "A"⟩, .absolute)]

def sizeWords : List (Bytes × AddressSize) :=
  [(Bytes.ascii "z", .zeroPage), (Bytes.ascii "f", .absolute)]

def indexWords : List (Bytes × IndexRegister) :=
  [(Bytes.ascii "x", .x), (Bytes.ascii "y", .y)]

/-- A word for the size of an address. -/
abbrev SizeWord := Spelling .ident sizeSigns sizeWords

abbrev IndexWord := Spelling .register [] indexWords

theorem sizeSigns_table :
    ∀ pair ∈ sizeSigns, Scan.scanFrom .stock false 0 pair.1.text = [pair.1] ∧
      pair.1.kind = .register ∧ Operand.sizes.contains (Bytes.lower pair.1.text) = true ∧
        View.Operand.sizeOf? (Bytes.lower pair.1.text) = some pair.2 := by
  decide +kernel

theorem sizeWords_table :
    ∀ pair ∈ sizeWords, Scan.scanFrom .stock false 0 pair.1 = [⟨.ident, pair.1⟩] ∧
      Operand.sizes.contains pair.1 = true ∧ View.Operand.sizeOf? pair.1 = some pair.2 := by
  decide +kernel

theorem indexWords_table :
    ∀ pair ∈ indexWords, Scan.scanFrom .stock false 0 pair.1 = [⟨.register, pair.1⟩] := by
  decide +kernel

theorem SizeWord.known (word : SizeWord) :
    word.token.StandsAlone .stock ∧ (word.token.kind = .ident ∨ word.token.kind = .register) ∧
      Operand.isSize word.token.text = true ∧
        View.Operand.sizeOf? (Bytes.lower word.token.text) = some word.meaning := by
  refine word.forall (motive := fun token meaning => token.StandsAlone .stock ∧
    (token.kind = .ident ∨ token.kind = .register) ∧ Operand.isSize token.text = true ∧
      View.Operand.sizeOf? (Bytes.lower token.text) = some meaning) ?_ ?_
  · intro pair member
    obtain ⟨scanned, isRegister, known⟩ := sizeSigns_table pair member
    exact ⟨⟨scanned, by rw [isRegister]; rfl⟩, .inr isRegister, known⟩
  · intro pair member text reads
    obtain ⟨scanned, isSize, means⟩ := sizeWords_table pair member
    rw [← reads] at scanned isSize means
    exact ⟨.of_lower ⟨scanned, rfl⟩, .inl rfl, isSize, means⟩

theorem IndexWord.known (word : IndexWord) :
    word.token.StandsAlone .stock ∧ word.token.kind = .register ∧
      (Bytes.lower word.token.text, word.meaning) ∈ indexWords := by
  refine word.forall (motive := fun token meaning => token.StandsAlone .stock ∧
    token.kind = .register ∧ (Bytes.lower token.text, meaning) ∈ indexWords) ?_ ?_
  · intro pair member
    cases member
  · intro pair member text reads
    have scanned := indexWords_table pair member
    rw [← reads] at scanned
    exact ⟨.of_lower ⟨scanned, rfl⟩, rfl, reads ▸ member⟩

/-- An operand.  Parentheses can have an index in them and another one behind them. -/
inductive OperandTerm where
  | immediate (value : Term)
  | direct (size? : Option SizeWord) (address : Term) (index? : Option IndexWord)
  | enclosed (address : Term) (inner? outer? : Option IndexWord)

namespace OperandTerm

def hash : Token := ⟨.hash, Bytes.ascii "#"⟩

def colon : Token := ⟨.colon, Bytes.ascii ":"⟩

def sizeTokens : Option SizeWord → List Token
  | none => []
  | some word => [word.token, colon]

def indexTokens : Option IndexWord → List Token
  | none => []
  | some word => [Term.comma, word.token]

/-- The address, or the immediate value. -/
def address : OperandTerm → Term
  | immediate value => value
  | direct _ address _ => address
  | enclosed address _ _ => address

def lead : OperandTerm → List Token
  | immediate _ => [hash]
  | direct size? _ _ => sizeTokens size?
  | enclosed _ _ _ => [Term.opening]

def trail : OperandTerm → List Token
  | immediate _ => []
  | direct _ _ index? => indexTokens index?
  | enclosed _ inner? outer? => indexTokens inner? ++ Term.closing :: indexTokens outer?

def tokens (operand : OperandTerm) : List Token :=
  operand.lead ++ (operand.address.tokens ++ operand.trail)

def parts (operand : OperandTerm) : List Written :=
  operand.lead.map .leaf ++ operand.address.written :: operand.trail.map .leaf

theorem spaced_parts_ne_nil (operand : OperandTerm) : Term.spaced operand.parts ≠ [] := by
  obtain ⟨first, rest, split⟩ :=
    List.exists_cons_of_ne_nil (List.append_ne_nil_of_right_ne_nil (operand.lead.map Written.leaf)
      (List.cons_ne_nil operand.address.written (operand.trail.map .leaf)))
  rw [parts, split, Term.spaced, intersperse_cons]
  exact List.cons_ne_nil _ _

def written (operand : OperandTerm) : Written :=
  .node .operand (Term.spaced operand.parts)

/-- The address fits, and parentheses that only group do not enclose all of it. -/
structure Fits (operand : OperandTerm) : Prop where
  address : operand.address.Fits .stock
  bare : ∀ size? address index?, operand = direct size? address index? →
    ∀ inner, address ≠ .parens inner

variable {operand : OperandTerm}

theorem standsAlone_sizeTokens (size? : Option SizeWord) :
    ∀ token ∈ sizeTokens size?, token.StandsAlone .stock := by
  intro token member
  cases size? with
  | none => cases member
  | some word =>
      rcases List.mem_cons.mp member with rfl | behind
      · exact word.known.1
      · obtain rfl := List.mem_singleton.mp behind
        exact ⟨rfl, rfl⟩

theorem standsAlone_indexTokens (index? : Option IndexWord) :
    ∀ token ∈ indexTokens index?, token.StandsAlone .stock := by
  intro token member
  cases index? with
  | none => cases member
  | some word =>
      rcases List.mem_cons.mp member with rfl | behind
      · exact Term.standsAlone_comma
      · obtain rfl := List.mem_singleton.mp behind
        exact word.known.1

theorem standsAlone_lead (operand : OperandTerm) :
    ∀ token ∈ operand.lead, token.StandsAlone .stock := by
  cases operand with
  | immediate =>
      intro token member
      obtain rfl := List.mem_singleton.mp member
      exact ⟨rfl, rfl⟩
  | direct size? => exact standsAlone_sizeTokens size?
  | enclosed =>
      intro token member
      obtain rfl := List.mem_singleton.mp member
      exact Term.standsAlone_opening

theorem standsAlone_trail (operand : OperandTerm) :
    ∀ token ∈ operand.trail, token.StandsAlone .stock := by
  cases operand with
  | immediate => simp [trail]
  | direct _ _ index? => exact standsAlone_indexTokens index?
  | enclosed _ inner? outer? =>
      intro token member
      rcases List.mem_append.mp member with inner | behind
      · exact standsAlone_indexTokens inner? token inner
      · rcases List.mem_cons.mp behind with rfl | outer
        · exact Term.standsAlone_closing
        · exact standsAlone_indexTokens outer? token outer

theorem Fits.standsAlone (fits : operand.Fits) :
    ∀ token ∈ operand.tokens, token.StandsAlone .stock := by
  intro token member
  rcases List.mem_append.mp member with lead | behind
  · exact operand.standsAlone_lead token lead
  · rcases List.mem_append.mp behind with address | trail
    · exact fits.address.standsAlone token address
    · exact operand.standsAlone_trail token trail

/-- An operand begins with a token that does not end the line. -/
theorem Fits.exists_first (fits : operand.Fits) :
    ∃ first rest, operand.tokens = first :: rest ∧ first.kind.endsLine = false := by
  cases operand with
  | immediate => exact ⟨hash, _, rfl, rfl⟩
  | direct size? address index? =>
      cases size? with
      | none =>
          obtain ⟨first, rest, tokens, -, goesOn, -⟩ := fits.address.exists_first
          have split : address.tokens = first :: rest := tokens
          refine ⟨first, rest ++ indexTokens index?, ?_, goesOn⟩
          change address.tokens ++ indexTokens index? = _
          rw [split, List.cons_append]
      | some word =>
          refine ⟨word.token, _, rfl, ?_⟩
          rcases word.known.2.1 with isIdent | isRegister
          · rw [isIdent]
            rfl
          · rw [isRegister]
            rfl
  | enclosed => exact ⟨Term.opening, _, rfl, rfl⟩

theorem prints_written (operand : OperandTerm) :
    Term.Prints operand.written operand.tokens := by
  have address : List.Forall₂ Term.Prints [operand.address.written] [operand.address.tokens] :=
    .cons (Term.prints_written _) .nil
  refine Term.prints_node (List.rel_append (Term.prints_leaves operand.lead)
    (List.rel_append address (Term.prints_leaves operand.trail))) (by simp [parts]) ?_
  simp [tokens, ← List.flatMap_def]

end OperandTerm
end Asm6502
