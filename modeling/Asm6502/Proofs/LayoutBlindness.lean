import Asm6502.Proofs.LaidOutTokens
import Asm6502.Proofs.ParseShape
import Asm6502.Proofs.TextPlaces
import Asm6502.Proofs.TwinReadings

/-!
# Parsing looks at no blank but whether it is there

Where the whitespace of a text is replaced by other spaces and tabs, the two texts are
read in step, as the grammar asks of whitespace only whether it stands between two tokens.
The trees have the same shape over the same words, and the same faults are reported at
the same tokens.
-/

namespace Asm6502

open List (Forall₂)

theorem Token.Relaid.readsLike {token other : Token} (relaid : Relaid token other) :
    token.ReadsLike other := by
  refine ⟨relaid.kind, fun significant => ?_⟩
  rw [relaid.text_of_ne]
  intro isWhitespace
  rw [isTrivia, isWhitespace] at significant
  contradiction

/-- Two places at the same depth and of the same kind.  Tokens other than whitespace
have the same text. -/
structure Place.Relaid (text other : Bytes) (place place' : Place) : Prop where
  depth : place.depth = place'.depth
  kind : place.kind = place'.kind
  bytes :
    place.isToken = true → place.kind ≠ .whitespace → place.bytes text = place'.bytes other

/-- The same message about the same tokens of two texts. -/
structure Diagnostic.Relaid (tokens others : List Token) (diagnostic other : Diagnostic) :
    Prop where
  message : diagnostic.message = other.message
  span : Span.Match tokens others diagnostic.span other.span

theorem Diagnostic.Twin.relaid {tokens others : List Token} {diagnostic other : Diagnostic}
    (twin : Twin Token.Relaid tokens others diagnostic other) :
    Diagnostic.Relaid tokens others diagnostic other := by
  obtain ⟨wording, span⟩ := twin
  refine ⟨?_, span⟩
  generalize diagnostic.message = message at wording
  generalize other.message = message' at wording
  cases wording with
  | same => rfl
  | unknownDirective relaid isWord =>
      rw [relaid.text_of_ne]
      rw [isWord]
      decide

namespace Place

variable {places others : List Place} {text other : Bytes}

/-- The texts of tokens tell about the tokens in a list of places. -/
theorem forall₂_relaid (resemble : Forall₂ Resembles places others)
    (tokens : Forall₂ (fun pair pair' => pair.1 ≠ .whitespace → pair.2 = pair'.2)
      ((places.filter isToken).map (Place.pair text))
      ((others.filter isToken).map (Place.pair other))) :
    Forall₂ (Place.Relaid text other) places others := by
  induction resemble with
  | nil => exact .nil
  | @cons place place' _ _ first _ ih =>
      rw [List.filter_cons, List.filter_cons, ← first.isToken] at tokens
      cases isToken : place.isToken with
      | true =>
          rw [isToken, if_pos rfl, if_pos rfl, List.map_cons, List.map_cons] at tokens
          rcases tokens with _ | ⟨here, behind⟩
          exact .cons ⟨first.depth, first.kind, fun _ => here⟩ (ih behind)
      | false =>
          rw [isToken, if_neg Bool.false_ne_true, if_neg Bool.false_ne_true] at tokens
          refine .cons ⟨first.depth, first.kind, fun token => ?_⟩ (ih tokens)
          rw [isToken] at token
          contradiction

end Place

namespace Parse

theorem map_pair_tokens_ofText (dialect : Dialect) (text : Bytes) :
    (Place.tokens ⟨(entire dialect text).root, []⟩).map (Place.pair text) =
      (Scan.scan dialect text).map fun token => (token.kind, token.text) := by
  have whole := congrArg₂ List.zip (map_kind_tokens_entire dialect text)
    (followsLines_entire dialect text).texts
  rw [List.zip_map', List.zip_map'] at whole
  exact whole

/-- Texts that differ in nothing but how much whitespace stands between their tokens have
trees of the same shape, over the same texts of tokens, and the same messages about the
same tokens, unless one of them is too long. -/
theorem ofText_relaid (dialect : Dialect) {text : Bytes}
    (noReturns : Byte.carriageReturn ∉ text) {others : List Token}
    (relaid : Forall₂ Token.Relaid (Scan.scan dialect text) others) :
    Scan.scan dialect (others.flatMap Token.text) = others ∧
      (text.length ≤ maxTextLength → (others.flatMap Token.text).length ≤ maxTextLength →
        Forall₂ (Place.Relaid text (others.flatMap Token.text)) (ofText dialect text).places
            (ofText dialect (others.flatMap Token.text)).places ∧
          Forall₂ (Diagnostic.Relaid (Scan.scan dialect text) others)
            (ofText dialect text).diagnostics
            (ofText dialect (others.flatMap Token.text)).diagnostics) := by
  have scanned : Scan.scan dialect (others.flatMap Token.text) = others :=
    (Scan.scanFrom_relaid noReturns relaid).1
  have pairwise : Forall₂ Token.Relaid (Scan.scan dialect text)
      (Scan.scan dialect (others.flatMap Token.text)) := by
    rwa [scanned]
  have twins := twins_entire (fun _ _ relaid => relaid.readsLike) dialect pairwise
  rw [scanned] at twins
  refine ⟨scanned, fun fits othersFit => ?_⟩
  rw [ofText_of_le fits, ofText_of_le othersFit]
  refine ⟨?_, twins.diagnostics.imp fun _ _ twin => twin.relaid⟩
  have resembles : Place.Resembles ⟨(entire dialect text).root, []⟩
      ⟨(entire dialect (others.flatMap Token.text)).root, []⟩ := ⟨twins.shape, rfl⟩
  refine Place.forall₂_relaid resembles.preorder ?_
  have here := map_pair_tokens_ofText dialect text
  have there := map_pair_tokens_ofText dialect (others.flatMap Token.text)
  rw [scanned] at there
  change Forall₂ _ ((Place.tokens _).map _) ((Place.tokens _).map _)
  rw [here, there, List.forall₂_map_left_iff, List.forall₂_map_right_iff]
  exact relaid.imp fun _ _ relaid => relaid.text_of_ne

/-- A name with blanks before its parenthesis, and an unknown directive in another
layout. -/
theorem ofText_relaid_of_blanks :
    let text := Bytes.ascii "f  (a) ; n\n .bogus\t1\n"
    let others := Scan.scan .stock (Bytes.ascii "f\t(a)\t ; n\n\t .bogus 1\n")
    let other := others.flatMap Token.text
    Byte.carriageReturn ∉ text ∧ Forall₂ Token.Relaid (Scan.scan .stock text) others ∧
      Scan.scan .stock other = others ∧
      (Forall₂ (Place.Relaid text other) (ofText .stock text).places
          (ofText .stock other).places ∧
        Forall₂ (Diagnostic.Relaid (Scan.scan .stock text) others)
          (ofText .stock text).diagnostics (ofText .stock other).diagnostics) ∧
      (ofText .stock text).diagnostics ≠ [] := by
  refine ⟨?noReturns, ?relaid, (ofText_relaid .stock ?noReturns ?relaid).1,
    (ofText_relaid .stock ?noReturns ?relaid).2 ?fits ?othersFit, ?faulty⟩
  all_goals decide +kernel

/-- A blank that is made longer than any text can be. -/
theorem longBlank_not_relaid :
    ¬∀ (dialect : Dialect) (text : Bytes), Byte.carriageReturn ∉ text →
      ∀ others : List Token, Forall₂ Token.Relaid (Scan.scan dialect text) others →
        Forall₂ (Place.Relaid text (others.flatMap Token.text)) (ofText dialect text).places
            (ofText dialect (others.flatMap Token.text)).places ∧
          Forall₂ (Diagnostic.Relaid (Scan.scan dialect text) others)
            (ofText dialect text).diagnostics
            (ofText dialect (others.flatMap Token.text)).diagnostics := by
  intro relaid
  have wide : Token.Relaid ⟨.whitespace, [0x20]⟩ ⟨.whitespace, Bytes.overlong 0x20⟩ := by
    refine ⟨rfl, fun notBlank => (notBlank rfl).elim, fun _ => ⟨Bytes.overlong_ne_nil _, ?_⟩⟩
    exact fun byte member => .inl (Bytes.eq_of_mem_overlong member)
  have scanned : Scan.scan .stock [0x20] = [⟨.whitespace, [0x20]⟩] := by decide +kernel
  have silent : (ofText .stock [0x20]).diagnostics = [] := by decide +kernel
  have pairwise : Forall₂ Token.Relaid (Scan.scan .stock [0x20])
      [⟨.whitespace, Bytes.overlong 0x20⟩] := by
    rw [scanned]
    exact .cons wide .nil
  have reported := (relaid .stock [0x20] (by decide) _ pairwise).2
  rw [List.flatMap_singleton, ofText_of_lt (Bytes.lt_length_overlong _), silent] at reported
  cases reported

end Parse
end Asm6502
