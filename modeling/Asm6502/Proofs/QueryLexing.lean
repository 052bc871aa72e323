import Asm6502.Query.Token

/-!
# Lexing queries

A token of a query is read back from its characters, wherever it stands in a source,
as long as nothing follows that would make it longer.  So tokens can be laid out with
any whitespace and comments between them, and scanning gives them back.
-/

namespace Asm6502
namespace Query

abbrev Lexeme := TokenKind × List Char

/-- A token without its place in the source. -/
def Token.lexeme (token : Token) : Lexeme :=
  (token.kind, token.chars)

namespace Lexeme

/-- The characters are those of a token of the kind. -/
inductive Proper : Lexeme → Prop
  | leftParen : Proper (.leftParen, ['('])
  | rightParen : Proper (.rightParen, [')'])
  | wildcard : Proper (.wildcard, ['_'])
  | capture {first : Char} {rest : List Char} :
      Token.startsCapture first = true → (∀ char ∈ rest, Token.continuesCapture char = true) →
        Proper (.capture, '@' :: first :: rest)
  | name {first : Char} {rest : List Char} :
      first.isAlpha = true → (∀ char ∈ rest, Token.continuesName char = true) →
        Proper (.name, first :: rest)
  | text {chars : List Char} :
      (∀ char ∈ chars, char ≠ '"' ∧ char ≠ '\n') →
        Proper (.text, '"' :: (chars ++ ['"']))

/-- What follows does not make a token longer. -/
def Ends (lexeme : Lexeme) (source : List Char) : Prop :=
  match lexeme.1 with
  | .name => source.head?.any Token.continuesName = false
  | .capture => source.head?.any Token.continuesCapture = false
  | _ => True

/-- Whitespace and comments, as they can stand between tokens. -/
inductive Gap : List Char → Prop
  | nil : Gap []
  | blank {char : Char} {rest : List Char} :
      Token.isBlank char = true → Gap rest → Gap (char :: rest)
  | comment {chars rest : List Char} :
      (∀ char ∈ chars, char ≠ '\n') → Gap rest → Gap (';' :: (chars ++ '\n' :: rest))

/-- Tokens are laid out in a source: whitespace and comments may stand before each and
behind the last, where a comment need not end with its line. -/
inductive Lays : List Lexeme → List Char → Prop
  | done {gap : List Char} : Gap gap → Lays [] gap
  | comment {gap chars : List Char} :
      Gap gap → (∀ char ∈ chars, char ≠ '\n') → Lays [] (gap ++ ';' :: chars)
  | next {lexeme : Lexeme} {rest : List Lexeme} {gap source : List Char} :
      Gap gap → Ends lexeme source → Lays rest source →
        Lays (lexeme :: rest) (gap ++ (lexeme.2 ++ source))

end Lexeme

namespace Token

variable {source rest chars : List Char} {first char : Char} {lexemes : List Lexeme}

/-- The kinds and characters of all tokens of a source, in order. -/
def pieces (source : List Char) : List Lexeme :=
  (scanFrom 0 0 source).map lexeme

theorem map_lexeme_scanFrom (start other skip : Nat) (source : List Char) :
    (scanFrom start skip source).map lexeme =
      (scanFrom other 0 (source.drop skip)).map lexeme := by
  induction source generalizing start other skip with
  | nil => cases skip <;> rfl
  | cons first rest ih =>
      cases skip with
      | succ skip => rw [scanFrom, ih _ other, List.drop_succ_cons]
      | zero =>
          simp only [scanFrom, List.drop_zero, List.map_cons, lexeme]
          rw [ih _ 0, ih (other + _) 0]

theorem pieces_cons (first : Char) (rest : List Char) :
    pieces (first :: rest) =
      ((classify first rest).1, first :: rest.take (classify first rest).2) ::
        pieces (rest.drop (classify first rest).2) := by
  rw [pieces, pieces, scanFrom, List.map_cons, map_lexeme_scanFrom _ 0]
  rfl

theorem run_append {holds : Char → Bool} (all : ∀ char ∈ chars, holds char = true)
    (stops : rest.head?.any holds = false) : run holds (chars ++ rest) = chars.length := by
  rw [run, List.takeWhile_append_of_pos all]
  cases rest with
  | nil => simp
  | cons first rest =>
      have fails : holds first = false := by simpa using stops
      simp [fails]

/-- The tokens of a source are these, whitespace and comments aside, and none of them is
garbage. -/
structure Reads (source : List Char) (lexemes : List Lexeme) : Prop where
  noGarbage : ∀ piece ∈ pieces source, piece.1 ≠ .garbage
  significant : (pieces source).filter (fun piece => piece.1 != .layout) = lexemes

theorem reads_nil : Reads [] [] :=
  ⟨by simp [pieces, scanFrom], rfl⟩

/-- The first token of a source is whitespace or a comment. -/
theorem reads_layout_iff {count : Nat} (layout : classify first rest = (.layout, count)) :
    Reads (first :: rest) lexemes ↔ Reads (rest.drop count) lexemes := by
  have split := pieces_cons first rest
  rw [layout] at split
  constructor
  · rintro ⟨noGarbage, significant⟩
    rw [split] at noGarbage significant
    exact ⟨fun piece member => noGarbage piece (List.mem_cons_of_mem _ member),
      by simpa using significant⟩
  · rintro ⟨noGarbage, significant⟩
    constructor
    · rw [split]
      simpa using noGarbage
    · rw [split]
      simpa using significant

theorem reads_token {kind : TokenKind} {count : Nat}
    (token : classify first rest = (kind, count)) (notGarbage : kind ≠ .garbage)
    (notLayout : kind ≠ .layout) (others : Reads (rest.drop count) lexemes) :
    Reads (first :: rest) ((kind, first :: rest.take count) :: lexemes) := by
  have split := pieces_cons first rest
  rw [token] at split
  constructor
  · rw [split]
    simpa [notGarbage] using others.noGarbage
  · rw [split, List.filter_cons_of_pos (by simpa using notLayout), others.significant]

theorem classify_blank (blank : isBlank first = true) (rest : List Char) :
    classify first rest = (.layout, run isBlank rest) := by
  have cases : first = ' ' ∨ first = '\t' ∨ first = '\r' ∨ first = '\n' := by
    simpa [isBlank, or_assoc] using blank
  obtain rfl | rfl | rfl | rfl := cases <;> rfl

theorem reads_drop_blanks_iff (source : List Char) :
    Reads (source.drop (run isBlank source)) lexemes ↔ Reads source lexemes := by
  cases source with
  | nil => rfl
  | cons first rest =>
      cases blank : isBlank first with
      | false => simp [run, blank]
      | true =>
          rw [reads_layout_iff (classify_blank blank rest)]
          simp [run, blank]

theorem reads_blank (blank : isBlank first = true) (reads : Reads source lexemes) :
    Reads (first :: source) lexemes := by
  rw [reads_layout_iff (classify_blank blank source), reads_drop_blanks_iff]
  exact reads

theorem classify_comment (rest : List Char) :
    classify ';' rest = (.layout, run (fun char => char != '\n') rest) :=
  rfl

theorem reads_gap {gap : List Char} (isGap : Lexeme.Gap gap) (reads : Reads source lexemes) :
    Reads (gap ++ source) lexemes := by
  induction isGap with
  | nil => exact reads
  | blank blank _ ih => exact reads_blank blank ih
  | @comment chars rest inLine _ ih =>
      have length : run (fun char => char != '\n') (chars ++ '\n' :: (rest ++ source)) =
          chars.length := run_append (by simpa using inLine) (by simp)
      rw [List.cons_append, List.append_assoc, List.cons_append,
        reads_layout_iff (classify_comment _), length, List.drop_left]
      exact reads_blank rfl ih

theorem reads_comment (inLine : ∀ char ∈ chars, char ≠ '\n') : Reads (';' :: chars) [] := by
  have length : run (fun char => char != '\n') (chars ++ []) = chars.length :=
    run_append (by simpa using inLine) rfl
  rw [List.append_nil] at length
  rw [reads_layout_iff (classify_comment _), length, List.drop_length]
  exact reads_nil

theorem classify_alpha (isAlpha : first.isAlpha = true) (rest : List Char) :
    classify first rest = (.name, run continuesName rest) := by
  have ne (other : Char) (notAlpha : other.isAlpha = false) : ¬first = other := by
    rintro rfl
    simp [isAlpha] at notAlpha
  have notBlank : isBlank first = false := by
    simp [isBlank, ne ' ' rfl, ne '\t' rfl, ne '\r' rfl, ne '\n' rfl]
  rw [classify]
  · simp [notBlank, isAlpha]
  all_goals exact ne _ rfl

theorem continues_of_starts (starts : startsCapture char = true) :
    continuesCapture char = true := by
  simp only [startsCapture, continuesCapture, continuesName, Char.isAlphanum,
    Bool.or_eq_true] at starts ⊢
  grind

theorem reads_proper {lexeme : Lexeme} (proper : lexeme.Proper)
    (ends : lexeme.Ends source) (reads : Reads source lexemes) :
    Reads (lexeme.2 ++ source) (lexeme :: lexemes) := by
  cases proper with
  | leftParen =>
      have token : classify '(' source = (.leftParen, 0) := rfl
      exact reads_token token (by decide) (by decide) reads
  | rightParen =>
      have token : classify ')' source = (.rightParen, 0) := rfl
      exact reads_token token (by decide) (by decide) reads
  | wildcard =>
      have token : classify '_' source = (.wildcard, 0) := rfl
      exact reads_token token (by decide) (by decide) reads
  | @capture first rest starts continues =>
      have continuesFirst := continues_of_starts starts
      have all : ∀ char ∈ first :: rest, continuesCapture char = true := by
        simpa [continuesFirst] using continues
      have length := run_append all ends
      have token : classify '@' (first :: rest ++ source) =
          (.capture, (first :: rest).length) := by
        rw [← length]
        simp [classify, starts]
      have others : Reads ((first :: rest ++ source).drop (first :: rest).length) lexemes := by
        rwa [List.drop_left]
      have read := reads_token token (by decide) (by decide) others
      rwa [List.take_left] at read
  | @name first rest isAlpha continues =>
      have token := classify_alpha isAlpha (rest ++ source)
      rw [run_append continues ends] at token
      have others : Reads ((rest ++ source).drop rest.length) lexemes := by
        rwa [List.drop_left]
      have read := reads_token token (by decide) (by decide) others
      rwa [List.take_left] at read
  | @text chars plain =>
      have length : run (fun char => char != '"' && char != '\n') (chars ++ '"' :: source) =
          chars.length := run_append (by simpa using plain) (by simp)
      have token : classify '"' ((chars ++ ['"']) ++ source) =
          (.text, (chars ++ ['"']).length) := by
        simp [classify, quoted, length]
      have others : Reads (((chars ++ ['"']) ++ source).drop (chars ++ ['"']).length)
          lexemes := by
        rwa [List.drop_left]
      have read := reads_token token (by decide) (by decide) others
      rwa [List.take_left] at read

theorem reads_of_lays (lays : Lexeme.Lays lexemes source)
    (proper : ∀ lexeme ∈ lexemes, lexeme.Proper) : Reads source lexemes := by
  induction lays with
  | done isGap => simpa using reads_gap isGap reads_nil
  | comment isGap inLine => exact reads_gap isGap (reads_comment inLine)
  | next isGap ends _ ih =>
      have others := ih fun lexeme member => proper lexeme (List.mem_cons_of_mem _ member)
      exact reads_gap isGap (reads_proper (proper _ List.mem_cons_self) ends others)

theorem join_of_noGarbage {tokens : List Token}
    (noGarbage : ∀ token ∈ tokens, token.kind ≠ .garbage) : join tokens = tokens := by
  induction tokens with
  | nil => rfl
  | cons token rest ih =>
      rw [join, ih fun other member => noGarbage other (List.mem_cons_of_mem _ member)]
      have here := noGarbage token List.mem_cons_self
      cases rest <;> simp [here]

/-- Tokens that are laid out in a source are the tokens of the source. -/
theorem map_lexeme_scan (lays : Lexeme.Lays lexemes source)
    (proper : ∀ lexeme ∈ lexemes, lexeme.Proper) :
    (scan source).map lexeme = lexemes := by
  have reads := reads_of_lays lays proper
  have noGarbage : ∀ token ∈ scanFrom 0 0 source, token.kind ≠ .garbage :=
    fun token member => reads.noGarbage token.lexeme (List.mem_map_of_mem member)
  rw [scan, join_of_noGarbage noGarbage, ← reads.significant, pieces, List.filter_map]
  rfl

end Token

namespace Lexeme

/-- Every token with a space in front of it. -/
def spaced : List Lexeme → List Char
  | [] => []
  | lexeme :: rest => ' ' :: (lexeme.2 ++ spaced rest)

end Lexeme
end Query
end Asm6502
