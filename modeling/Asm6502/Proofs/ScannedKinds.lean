import Asm6502.Proofs.FirstBytes

/-!
# Kinds by their first byte

The first byte of a token leaves few kinds to choose from.  The table below lists them;
what is asked of the kind of a token, or of the first byte of a token of some kind, can be
read off it.
-/

namespace Asm6502
namespace Scan

/-- The kinds of tokens that are spelled with letters and digits, without a dot. -/
def plainKinds : List Kind :=
  [.ident, .mnemonic, .register]

def dottedKinds : List Kind :=
  [.directiveKw, .mnemonic, .register, .pseudoFnKw, .pseudoVarKw, .dotOpKw, .dotIdent]

/-- The kinds that a token can have, by its first character. -/
def kindsFrom (first : Char) : List Kind :=
  match single? first with
  | some kind => [kind]
  | none =>
      match first with
      | '\n' => [.eol]
      | '\r' => [.eol, .whitespace]
      | ' ' | '\t' | '\x0b' | '\x0c' => [.whitespace]
      | ';' => [.comment]
      | '\\' => [.lineContinuation, .errorToken]
      | ':' => [.colon, .colon2, .colonEq, .unnamedRef]
      | '&' => [.amp, .amp2]
      | '|' => [.pipe, .pipe2]
      | '<' => [.lt, .shl, .ltEq, .ltGt]
      | '>' => [.gt, .shr, .gtEq]
      | '$' | '%' => [.number, .errorToken]
      | '\'' => [.char, .errorToken]
      | '"' => [.string, .errorToken]
      | '.' => .errorToken :: dottedKinds
      | '@' => [.localIdent, .errorToken]
      | _ => .number :: .errorToken :: plainKinds

theorem operator_mem {first : Char} {alone : Kind} {kinds : List Kind} (rest : Bytes)
    (aloneIn : alone ∈ kinds)
    (doubleIn : ∀ next kind, double? first next = some kind → kind ∈ kinds) :
    (operator first alone rest).1 ∈ kinds := by
  unfold operator
  split
  · next kind found =>
      obtain ⟨next, -, found⟩ := Option.bind_eq_some_iff.mp found
      exact doubleIn _ kind found
  · exact aloneIn

theorem colon_mem (atLineStart : Bool) (rest : Bytes) :
    (colon atLineStart rest).1 ∈ [Kind.colon, .colon2, .colonEq, .unnamedRef] := by
  unfold colon
  split
  · decide
  · split
    · decide
    · split
      all_goals simp

theorem character_mem (rest : Bytes) : (character rest).1 ∈ [Kind.char, .errorToken] := by
  unfold character
  split
  · split
    all_goals decide
  · simp

theorem stringLiteral_mem (rest : Bytes) :
    (stringLiteral rest).1 ∈ [Kind.string, .errorToken] := by
  unfold stringLiteral
  split
  all_goals simp

theorem plainWord_mem (dialect : Dialect) (word : Bytes) :
    plainWord dialect word ∈ plainKinds := by
  unfold plainWord
  split
  all_goals decide

theorem dottedWord_mem (dialect : Dialect) (word : Bytes) :
    dottedWord dialect word ∈ dottedKinds := by
  unfold dottedWord
  split
  · next keyword _ =>
      cases keyword
      all_goals simp [dottedKinds, Keyword.tokenKind]
  · decide

theorem mem_of_guarded {kind : Kind} {count : Nat} {kinds : List Kind} (goesOn : Bool)
    (rest : Bytes) (kindIn : kind ∈ kinds) (errorIn : .errorToken ∈ kinds) :
    (if goesOn then (kind, count) else stray rest).1 ∈ kinds := by
  split
  · exact kindIn
  · exact errorIn

theorem IsPlain.kindsFrom_eq {first : UInt8} (plain : IsPlain first) :
    kindsFrom (Byte.char first) = .number :: .errorToken :: plainKinds := by
  have unmarked := plain.unmarked
  unfold kindsFrom
  rw [plain.single]
  dsimp only
  generalize Byte.char first = char at unmarked
  split
  case h_20 => rfl
  all_goals exact absurd (by decide) unmarked

theorem double?_mem {first next : Char} {kind : Kind} (found : double? first next = some kind) :
    kind ∈ kindsFrom first := by
  unfold double? at found
  split at found
  all_goals first | contradiction | (cases found; decide)

theorem Chooses.kind_mem {dialect : Dialect} {atLineStart : Bool} {first : UInt8}
    {scanner : Bytes → Kind × Nat} (chosen : Chooses dialect atLineStart first scanner)
    (rest : Bytes) : (scanner rest).1 ∈ kindsFrom (Byte.char first) := by
  cases chosen with
  | single found =>
      unfold kindsFrom
      rw [found]
      exact List.mem_singleton_self _
  | newline begins | comment begins =>
      rw [begins]
      exact List.mem_singleton_self _
  | carriageReturn begins =>
      rw [begins]
      dsimp only
      split
      · exact List.mem_cons_self
      · exact List.mem_cons_of_mem _ List.mem_cons_self
  | blank begins =>
      simp only [List.mem_cons, List.not_mem_nil, or_false] at begins
      rcases begins with begins | begins | begins | begins
      all_goals
        rw [begins]
        exact List.mem_singleton_self _
  | backslash begins | hexNumber begins | binaryNumber begins | localIdent begins =>
      rw [begins]
      exact mem_of_guarded _ rest (by decide) (by decide)
  | colon begins =>
      rw [begins]
      exact colon_mem atLineStart rest
  | operator begins =>
      refine operator_mem rest ?_ fun next kind found => double?_mem found
      simp only [List.mem_cons, List.not_mem_nil, or_false, Prod.mk.injEq] at begins
      rcases begins with ⟨begins, rfl⟩ | ⟨begins, rfl⟩ | ⟨begins, rfl⟩ | ⟨begins, rfl⟩
      all_goals
        rw [begins]
        decide
  | character begins =>
      rw [begins]
      exact character_mem rest
  | stringLiteral begins =>
      rw [begins]
      exact stringLiteral_mem rest
  | dottedWord begins =>
      rw [begins]
      exact mem_of_guarded _ rest (List.mem_cons_of_mem _ (dottedWord_mem dialect _)) (by decide)
  | number plain =>
      rw [plain.kindsFrom_eq]
      exact List.mem_cons_self
  | plainWord plain =>
      rw [plain.kindsFrom_eq]
      exact List.mem_cons_of_mem _ (List.mem_cons_of_mem _ (plainWord_mem dialect _))
  | stray plain =>
      rw [plain.kindsFrom_eq]
      exact List.mem_cons_of_mem _ List.mem_cons_self

theorem classify_mem (dialect : Dialect) (atLineStart : Bool) (first : UInt8) (rest : Bytes) :
    (classify dialect atLineStart first rest).1 ∈ kindsFrom (Byte.char first) :=
  (chooses_classify dialect atLineStart first).kind_mem rest

theorem single?_ne {first : Char} {kind : Kind} (found : single? first = some kind) :
    kind ≠ .whitespace ∧ kind ≠ .comment ∧ kind ≠ .errorToken := by
  unfold single? at found
  split at found
  case h_17 => contradiction
  all_goals
    cases found
    decide

theorem single?_of_brace_mem {first : Char} {kind : Kind}
    (brace : kind = .leftBrace ∨ kind = .rightBrace) (member : kind ∈ kindsFrom first) :
    single? first = some kind := by
  unfold kindsFrom at member
  cases single : single? first with
  | some other =>
      rw [single] at member
      rw [List.mem_singleton.mp member]
  | none =>
      rw [single] at member
      dsimp only at member
      rcases brace with rfl | rfl
      all_goals
        split at member
        all_goals exact absurd member (by decide)

theorem eq_semicolon_of_mem {first : Char} (comment : .comment ∈ kindsFrom first) :
    first = ';' := by
  unfold kindsFrom at comment
  cases single : single? first with
  | some kind =>
      rw [single] at comment
      exact absurd (List.mem_singleton.mp comment).symm (single?_ne single).2.1
  | none =>
      rw [single] at comment
      dsimp only at comment
      split at comment
      case h_7 => rfl
      all_goals exact absurd comment (by decide)

theorem eq_blank_of_mem {first : Char} (blank : .whitespace ∈ kindsFrom first) :
    first = '\r' ∨ first = ' ' ∨ first = '\t' ∨ first = '\x0b' ∨ first = '\x0c' := by
  unfold kindsFrom at blank
  cases single : single? first with
  | some kind =>
      rw [single] at blank
      exact absurd (List.mem_singleton.mp blank).symm (single?_ne single).1
  | none =>
      rw [single] at blank
      dsimp only at blank
      split at blank
      case h_2 | h_3 | h_4 | h_5 | h_6 => simp
      all_goals exact absurd blank (by decide)

end Scan
end Asm6502
