import Asm6502.Proofs.RefusedTexts
import Asm6502.Proofs.WrittenPlaces
import Asm6502.Proofs.WrittenTexts

/-!
# Places in the tree of a text

Every place in the tree of a text stands for a line or a block, or for something that
the grammar has made inside of a line.  What is asked of the children of a place can
be asked of the parts they stand for.
-/

namespace Asm6502

open List (Forall₂)
open Written Place

/-- Kinds of nodes outside of lines, and of lines. -/
def Kind.isOuter (kind : Kind) : Bool :=
  kind == .sourceFile || kind == .line || kind.isBlock

theorem Kind.not_isOuter_of_isOperand {kind : Kind} (isOperand : kind.isOperand = true) :
    kind.isOuter = false := by
  revert isOperand
  cases kind <;> decide

theorem Kind.not_isOuter_of_standsPlain {kind : Kind} (plain : kind.standsPlain = true) :
    kind.isOuter = false := by
  revert plain
  cases kind <;> decide

theorem Kind.not_isOuter_of_holds {outer kind : Kind} (held : outer.holds kind = true) :
    kind.isOuter = false := by
  unfold Kind.holds at held
  split at held
  · rw [beq_iff_eq] at held
    subst held
    rfl
  · exact not_isOuter_of_isOperand held
  · exact not_isOuter_of_isOperand held
  · exact not_isOuter_of_isOperand held
  · rw [Bool.or_eq_true, beq_iff_eq] at held
    rcases held with isOperand | rfl
    · exact not_isOuter_of_isOperand isOperand
    · rfl
  · rw [beq_iff_eq] at held
    subst held
    rfl
  · exact not_isOuter_of_isOperand held
  · exact not_isOuter_of_isOperand held
  · exact not_isOuter_of_isOperand held
  · exact not_isOuter_of_isOperand held
  · contradiction

theorem Kind.isOuter_of_isBlock {kind : Kind} (isBlock : kind.isBlock = true) :
    kind.isOuter = true := by
  rw [isOuter, isBlock, Bool.or_true]

theorem Kind.isOuter_nodeKind (block : BlockKind) : block.nodeKind.isOuter = true :=
  isOuter_of_isBlock block.isBlock_nodeKind

/-- A token, or a node that only stands inside of lines. -/
def Written.IsInner (written : Written) : Prop :=
  written.Among fun kind => !kind.isOuter

theorem Written.Among.isInner {kinds : Kind → Bool} {written : Written}
    (among : written.Among kinds)
    (inner : ∀ kind, kinds kind = true → kind.isOuter = false) : written.IsInner :=
  among.mono fun kind accepted => by simp [inner kind accepted]

theorem Written.IsInner.false_of_isOuter {kind : Kind} {children : List Written}
    (inner : (Written.node kind children).IsInner) (outer : kind.isOuter = true) : False := by
  rcases inner with isToken | notOuter
  · contradiction
  · simp [Written.kind, outer] at notOuter

variable {dialect : Dialect} {block? : Option BlockKind} {edge? : Option BlockEdge}
  {written part : Written}

/-- What has no open block in it. -/
inductive Closed (dialect : Dialect) : Written → Prop
  | line {block? : Option BlockKind} {edge? : Option BlockEdge} {written : Written} :
      LineWith dialect block? edge? written → Closed dialect written
  | part {block? : Option BlockKind} {written : Written} :
      Section dialect block? written → Closed dialect written
  | inline {written : Written} :
      written.Formed dialect → written.IsInner → Closed dialect written

/-- What can occur in the tree of a text. -/
inductive Standing (dialect : Dialect) : Written → Prop
  | root {settled tail : List Written} {start : Nat} {reports : List Diagnostic} :
      (∀ part ∈ settled, Section dialect none part) →
        Ending dialect none start tail reports →
          Standing dialect (.node .sourceFile (settled ++ tail))
  | closed {written : Written} : Closed dialect written → Standing dialect written
  | unclosed {block? : Option BlockKind} {start : Nat} {tail : List Written}
      {reports : List Diagnostic} {written : Written} :
      Ending dialect block? start tail reports → written ∈ tail → Standing dialect written

theorem LineShape.isInner {start : Nat} {children : List Written}
    (shape : LineShape dialect block? start children edge?) :
    ∀ child ∈ children, child.IsInner := by
  intro child member
  have aside (among : child.Among Kind.standsAside) : child.IsInner :=
    among.isInner fun kind stands =>
      Kind.not_isOuter_of_standsPlain (Kind.standsPlain_of_standsAside kind stands)
  cases shape with
  | plain stands =>
      exact (stands child member).isInner fun _ => Kind.not_isOuter_of_standsPlain
  | command lead trail =>
      rcases List.mem_append.mp member with early | late
      · exact aside (lead child early)
      · rcases List.mem_cons.mp late with rfl | late
        · exact .inr rfl
        · exact aside (trail child late)

theorem LineWith.closed_child (lineWith : LineWith dialect block? edge? written)
    (member : part ∈ written.children) : Closed dialect part := by
  obtain ⟨children, rfl, formed, shape⟩ := lineWith
  exact .inline (formed part member) (shape.isInner part member)

theorem Closed.child (closed : Closed dialect written) (member : part ∈ written.children) :
    Closed dialect part := by
  cases closed with
  | line lineWith => exact lineWith.closed_child member
  | part shape =>
      cases shape with
      | line lineWith => exact lineWith.closed_child member
      | @block _ _ _ opener closer body opens inside closes =>
          have cases : part = opener ∨ part ∈ body ∨ part = closer := by
            simpa [Written.children] using member
          rcases cases with rfl | inBody | rfl
          · exact .line opens
          · exact .part (inside part inBody)
          · exact .line closes
  | inline formed _ =>
      cases formed with
      | leaf => contradiction
      | node among _ formed =>
          exact .inline (formed part member)
            ((among part member).isInner fun _ => Kind.not_isOuter_of_holds)

theorem Standing.child (standing : Standing dialect written)
    (member : part ∈ written.children) : Standing dialect part := by
  cases standing with
  | root sections ending =>
      rcases List.mem_append.mp member with early | late
      · exact .closed (.part (sections part early))
      · exact .unclosed ending late
  | closed closed => exact .closed (closed.child member)
  | unclosed ending inTail =>
      cases ending with
      | closed => contradiction
      | @unclosed _ _ _ _ opener body tail _ opens _ inside ending =>
          obtain rfl := List.mem_singleton.mp inTail
          have cases : part = opener ∨ part ∈ body ∨ part ∈ tail := by
            simpa [Written.children] using member
          rcases cases with rfl | inBody | inTail
          · exact .closed (.line opens)
          · exact .closed (.part (inside part inBody))
          · exact .unclosed ending inTail

theorem LineWith.kind (lineWith : LineWith dialect block? edge? written) :
    written.kind = .line := by
  obtain ⟨children, rfl, -, -⟩ := lineWith
  rfl

/-- What stands inside of a line is formed as the grammar says. -/
theorem Standing.formed (standing : Standing dialect written)
    (inner : written.kind.isOuter = false) : written.Formed dialect := by
  have notLine {block? : Option BlockKind} {edge? : Option BlockEdge}
      (lineWith : LineWith dialect block? edge? written) : False := by
    rw [lineWith.kind] at inner
    contradiction
  have notBlock {block : BlockKind} {children : List Written}
      (isBlock : written = .node block.nodeKind children) : False := by
    rw [isBlock, Written.kind, Kind.isOuter_nodeKind] at inner
    contradiction
  cases standing with
  | root => contradiction
  | closed closed =>
      cases closed with
      | line lineWith => exact (notLine lineWith).elim
      | part shape =>
          cases shape with
          | line lineWith => exact (notLine lineWith).elim
          | block => exact (notBlock rfl).elim
      | inline formed _ => exact formed
  | unclosed ending inTail =>
      cases ending with
      | closed => contradiction
      | unclosed => exact (notBlock (List.mem_singleton.mp inTail)).elim

theorem Place.Occurs.standing {root : Written} {place : Place}
    (occurs : Occurs root place written) (start : Standing dialect root) :
    Standing dialect written := by
  induction occurs with
  | root => exact start
  | child _ ih => exact ih.child (by simp [Written.children])

namespace Parse

/-- Every place in the tree. -/
def places (parse : Parse) : List Place :=
  Place.preorder ⟨parse.root, []⟩

theorem places_rejected (error : InputTooLarge) :
    (rejected error).places = [⟨.node .sourceFile [], []⟩] :=
  rfl

theorem kind_of_mem_places_rejected {error : InputTooLarge} {place : Place}
    (member : place ∈ (rejected error).places) : place.kind = .sourceFile := by
  rw [places_rejected, List.mem_singleton] at member
  rw [member]
  rfl

theorem length_le_of_mem_places {text : Bytes} {place : Place}
    (member : place ∈ (ofText dialect text).places) (notRoot : place.kind ≠ .sourceFile) :
    text.length ≤ maxTextLength := by
  rcases ofText_cases dialect text with ⟨fits, -⟩ | ⟨-, refused⟩
  · exact fits
  · rw [refused] at member
    exact absurd (kind_of_mem_places_rejected member) notRoot

theorem WrittenAs.bytes {text : Bytes} {parse : Parse}
    {settled tail : List Written} {reports : List Diagnostic}
    (writtenAs : WrittenAs dialect text parse settled tail reports) :
    (Written.node .sourceFile (settled ++ tail)).bytes = text := by
  rw [Written.bytes, tokens_node, writtenAs.tokens]
  exact Scan.flatMap_text_scanFrom dialect true text

theorem WrittenAs.standing {text : Bytes} {parse : Parse}
    {settled tail : List Written} {reports : List Diagnostic}
    (writtenAs : WrittenAs dialect text parse settled tail reports) :
    Standing dialect (.node .sourceFile (settled ++ tail)) :=
  .root writtenAs.sections writtenAs.ending

end Parse

namespace Place

variable {root : Written} {place : Place} {places : List Place} {parts : List Written}

/-- The kind and the bytes of a token. -/
def pair (source : Bytes) (place : Place) : Kind × Bytes :=
  (place.kind, place.bytes source)

theorem Occurs.pair {token : Token} (occurs : Occurs root place (.leaf token)) :
    place.pair root.bytes = (token.kind, token.text) := by
  rw [Place.pair, occurs.kind, occurs.bytes]
  simp [Written.kind, Written.bytes, Written.tokens]

theorem forall₂_significant (occur : Forall₂ (Occurs root) places parts) :
    Forall₂ (Occurs root) (places.filter fun child => !child.isTrivia)
      (parts.filter fun child => !child.isTrivia) := by
  induction occur with
  | nil => exact .nil
  | cons first _ ih =>
      rw [List.filter_cons, List.filter_cons, first.isTrivia]
      split
      · exact .cons first ih
      · exact ih

theorem map_find?_isToken (occur : Forall₂ (Occurs root) places parts) :
    (places.find? isToken).map (Place.pair root.bytes) =
      (parts.findSome? token?).map fun token => (token.kind, token.text) := by
  induction occur with
  | nil => rfl
  | @cons place written _ _ first _ ih =>
      have isToken := first.isToken
      cases written with
      | leaf token =>
          rw [List.find?_cons, isToken, List.findSome?_cons]
          exact congrArg some first.pair
      | node =>
          rw [List.find?_cons, isToken, List.findSome?_cons]
          exact ih

theorem map_head?_isToken (occur : Forall₂ (Occurs root) places parts) :
    (places.head?.filter isToken).map (Place.pair root.bytes) =
      (parts.head?.bind token?).map fun token => (token.kind, token.text) := by
  cases occur with
  | nil => rfl
  | @cons place written _ _ first _ =>
      have isToken := first.isToken
      rw [List.head?_cons, List.head?_cons, Option.filter_some, isToken]
      cases written with
      | leaf token => exact congrArg some first.pair
      | node => rfl

theorem exists_occurs_getLast? (occur : Forall₂ (Occurs root) places parts)
    (last : places.getLast? = some place) :
    ∃ written, parts.getLast? = some written ∧ Occurs root place written := by
  have reversed := List.forall₂_reverse_iff.mpr occur
  rw [← List.head?_reverse] at last
  obtain ⟨others, split⟩ := List.head?_eq_some_iff.mp last
  rw [split] at reversed
  obtain ⟨written, rest, here, -, splitParts⟩ := List.forall₂_cons_left_iff.mp reversed
  exact ⟨written, by rw [← List.head?_reverse, splitParts, List.head?_cons], here⟩

end Place
end Asm6502
