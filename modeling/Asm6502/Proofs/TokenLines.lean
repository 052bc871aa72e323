import Asm6502.Proofs.ScanLocality
import Asm6502.Proofs.ScannedKinds

/-!
# Logical lines of a token list

Cutting the tokens of a text behind every line end gives its logical lines.
The reader of a text scans one such line at a time; this file shows that it
meets exactly these lines, and what a line looks like.
-/

namespace Asm6502

namespace Token

/-- The leaf that stands for a token: its kind and its length. -/
def pair (token : Token) : Kind × Nat :=
  (token.kind, token.length)

/-- Cut a list of tokens behind every line end. -/
def lines : List Token → List (List Token)
  | [] => []
  | token :: rest =>
      if token.kind = .eol then [token] :: lines rest
      else
        match lines rest with
        | [] => [[token]]
        | line :: others => (token :: line) :: others

def Unbroken (tokens : List Token) : Prop :=
  ∀ token ∈ tokens, token.kind ≠ .eol

def EndsLine (tokens : List Token) : Prop :=
  ∃ body last, tokens = body ++ [last] ∧ last.kind = .eol

/-- Only the last token of a line may end it. -/
structure IsLine (tokens : List Token) : Prop where
  nonempty : tokens ≠ []
  unbroken : Unbroken tokens.dropLast

@[simp]
theorem totalLength_append (first second : List Token) :
    totalLength (first ++ second) = totalLength first + totalLength second := by
  induction first with
  | nil => simp [totalLength]
  | cons token rest ih => simp [totalLength, ih, Nat.add_assoc]

theorem totalLength_eq_length_flatMap (tokens : List Token) :
    totalLength tokens = (tokens.flatMap Token.text).length := by
  induction tokens with
  | nil => rfl
  | cons token rest ih => simp [totalLength, Token.length, ih]

theorem eq_nil_of_totalLength {tokens : List Token}
    (nonempty : ∀ token ∈ tokens, token.text ≠ []) (none : totalLength tokens = 0) :
    tokens = [] := by
  cases tokens with
  | nil => rfl
  | cons token rest =>
      have positive : 0 < token.length :=
        List.length_pos_iff.mpr (nonempty token (by simp))
      rw [totalLength] at none
      omega

/-- Where a list of tokens is cut is settled by how many bytes stand before. -/
theorem append_inj_of_totalLength {first rest second more : List Token}
    (same : first ++ rest = second ++ more)
    (lengths : totalLength first = totalLength second)
    (nonempty : ∀ token ∈ first ++ rest, token.text ≠ []) :
    first = second ∧ rest = more := by
  rcases List.append_eq_append_iff.mp same with
    ⟨between, rfl, rfl⟩ | ⟨between, rfl, rfl⟩
  · have none : between = [] := by
      apply eq_nil_of_totalLength
      · exact fun token member => nonempty token (by simp [member])
      · rw [totalLength_append] at lengths
        omega
    simp [none]
  · have none : between = [] := by
      apply eq_nil_of_totalLength
      · exact fun token member => nonempty token (by simp [member])
      · rw [totalLength_append] at lengths
        omega
    simp [none]

theorem lines_cons_of_eol {token : Token} (ends : token.kind = .eol)
    (rest : List Token) : lines (token :: rest) = [token] :: lines rest := by
  simp [lines, ends]

theorem lines_eq_nil_iff {tokens : List Token} :
    lines tokens = [] ↔ tokens = [] := by
  cases tokens with
  | nil => simp [lines]
  | cons token rest =>
      simp only [lines]
      split
      · simp
      · split <;> simp

theorem flatten_lines (tokens : List Token) : (lines tokens).flatten = tokens := by
  induction tokens with
  | nil => rfl
  | cons token rest ih =>
      simp only [lines]
      split
      · simp [ih]
      · cases cut : lines rest with
        | nil =>
            rw [lines_eq_nil_iff] at cut
            simp [cut]
        | cons line others =>
            rw [cut] at ih
            simpa using ih

theorem EndsLine.cons {tokens : List Token} (ends : EndsLine tokens)
    (token : Token) : EndsLine (token :: tokens) := by
  obtain ⟨body, last, rfl, isEol⟩ := ends
  exact ⟨token :: body, last, rfl, isEol⟩

theorem EndsLine.of_append {before tokens : List Token}
    (ends : EndsLine (before ++ tokens)) (nonempty : tokens ≠ []) :
    EndsLine tokens := by
  obtain ⟨body, last, split, isEol⟩ := ends
  rcases List.eq_nil_or_concat tokens with none | ⟨inner, final, rfl⟩
  · exact absurd none nonempty
  · rw [List.concat_eq_append, ← List.append_assoc] at split
    have same : final = last := by
      simpa using (List.append_inj' split rfl).2
    exact ⟨inner, final, by simp, same ▸ isEol⟩

theorem EndsLine.ne_nil {tokens : List Token} (ends : EndsLine tokens) : tokens ≠ [] := by
  obtain ⟨body, last, rfl, -⟩ := ends
  simp

theorem EndsLine.tail {token : Token} {rest : List Token}
    (ends : EndsLine (token :: rest)) : rest = [] ∨ EndsLine rest := by
  by_cases empty : rest = []
  · exact .inl empty
  · have cut : EndsLine ([token] ++ rest) := ends
    exact .inr (cut.of_append empty)

theorem EndsLine.kind_of_singleton {token : Token} (ends : EndsLine [token]) :
    token.kind = .eol := by
  obtain ⟨body, last, split, isEol⟩ := ends
  have same : token = last := by simpa using congrArg List.getLast? split
  rw [same, isEol]

theorem lines_append {tokens : List Token}
    (ends : tokens = [] ∨ EndsLine tokens) (more : List Token) :
    lines (tokens ++ more) = lines tokens ++ lines more := by
  induction tokens with
  | nil => rfl
  | cons token rest ih =>
      have ends := ends.resolve_left (by simp)
      rw [List.cons_append]
      by_cases isEol : token.kind = .eol
      · rw [lines_cons_of_eol isEol, lines_cons_of_eol isEol, ih ends.tail,
          List.cons_append]
      · rcases ends.tail with rfl | restEnds
        · exact absurd ends.kind_of_singleton isEol
        · have restNonempty : lines rest ≠ [] :=
            mt lines_eq_nil_iff.mp restEnds.ne_nil
          obtain ⟨line, others, cut⟩ := List.exists_cons_of_ne_nil restNonempty
          simp [lines, isEol, ih (.inr restEnds), cut]

/-- Every line has the shape of one, and every line but the last has its end. -/
theorem lines_shape {tokens : List Token} {before after : List (List Token)}
    {line : List Token} (cut : lines tokens = before ++ line :: after) :
    IsLine line ∧ (after ≠ [] → EndsLine line) := by
  induction tokens generalizing before line with
  | nil => simp [lines] at cut
  | cons token rest ih =>
      by_cases isEol : token.kind = .eol
      · rw [lines_cons_of_eol isEol] at cut
        cases before with
        | nil =>
            obtain ⟨rfl, rfl⟩ := List.cons.inj cut
            exact ⟨⟨by simp, by simp [Unbroken]⟩, fun _ => ⟨[], token, rfl, isEol⟩⟩
        | cons first before => exact ih (List.cons.inj cut).2
      · simp only [lines, isEol, if_false] at cut
        cases restCut : lines rest with
        | nil =>
            rw [restCut] at cut
            cases before with
            | nil =>
                obtain ⟨rfl, rfl⟩ := List.cons.inj cut
                exact ⟨⟨by simp, by simp [Unbroken]⟩, by simp⟩
            | cons first before => simp at cut
        | cons inner others =>
            rw [restCut] at cut
            cases before with
            | nil =>
                obtain ⟨rfl, rfl⟩ := List.cons.inj cut
                have restSplit : lines rest = [] ++ inner :: others := restCut
                obtain ⟨shape, ended⟩ := ih restSplit
                obtain ⟨head, tail, rfl⟩ :=
                  List.exists_cons_of_ne_nil shape.nonempty
                refine ⟨⟨by simp, ?_⟩, fun more => (ended more).cons token⟩
                intro member memberIn
                rw [List.dropLast_cons_cons] at memberIn
                rcases List.mem_cons.mp memberIn with rfl | later
                · exact isEol
                · exact shape.unbroken member later
            | cons first before =>
                obtain ⟨rfl, rfl⟩ := List.cons.inj cut
                have restSplit :
                    lines rest = (inner :: before) ++ line :: after := restCut
                exact ih restSplit

theorem endsLine_flatten {tokens : List Token} {own behind : List (List Token)}
    (cut : lines tokens = own ++ behind) (front : own ≠ []) (followed : behind ≠ []) :
    EndsLine own.flatten := by
  obtain ⟨before, line, rfl⟩ := (List.eq_nil_or_concat own).resolve_left front
  rw [List.concat_eq_append, List.append_assoc] at cut
  obtain ⟨body, last, lineEq, isEol⟩ := (lines_shape cut).2 (by simp [followed])
  exact ⟨before.flatten ++ body, last, by simp [lineEq], isEol⟩

end Token

namespace Scan

open Token

/-- The kinds of tokens other than line ends.  The end of the text is not a
token. -/
def IsInner (kind : Kind) : Prop :=
  kind.rank < Kind.rank .eof ∧ kind ≠ .eol

instance (kind : Kind) : Decidable (IsInner kind) :=
  inferInstanceAs (Decidable (_ ∧ _))

theorem isInner_of_single? {first : Char} {kind : Kind}
    (found : single? first = some kind) : IsInner kind := by
  unfold single? at found
  split at found <;> cases found <;> decide

/-- Of the kinds in the table only the line's end is not inner. -/
theorem isInner_of_mem {first : Char} {kind : Kind} (listed : kind ∈ kindsFrom first)
    (notEnd : kind ≠ .eol) : IsInner kind := by
  revert kind
  unfold kindsFrom
  cases single : single? first with
  | some other =>
      rintro kind listed -
      rw [List.mem_singleton.mp listed]
      exact isInner_of_single? single
  | none =>
      dsimp only
      split
      all_goals decide

theorem eq_lineEnd_of_mem {first : Char} (lineEnd : .eol ∈ kindsFrom first) :
    first = '\n' ∨ first = '\r' := by
  unfold kindsFrom at lineEnd
  cases single : single? first with
  | some kind =>
      rw [single] at lineEnd
      exact absurd (List.mem_singleton.mp lineEnd).symm (isInner_of_single? single).2
  | none =>
      rw [single] at lineEnd
      dsimp only at lineEnd
      split at lineEnd
      case h_1 | h_2 => simp
      all_goals exact absurd lineEnd (by decide)

theorem getLast?_of_eol {dialect : Dialect} {atLineStart : Bool} {first : UInt8} {rest : Bytes}
    (ends : (classify dialect atLineStart first rest).1 = .eol) :
    (first :: rest.take (classify dialect atLineStart first rest).2).getLast? =
      some Byte.newline := by
  have listed := classify_mem dialect atLineStart first rest
  rw [ends] at listed
  rcases eq_lineEnd_of_mem listed with isChar | isChar
  all_goals obtain rfl := Byte.eq_of_char isChar
  · rfl
  · have classified : classify dialect atLineStart Byte.carriageReturn rest =
        if rest.head? == some Byte.newline then (.eol, 1) else (.whitespace, blankRun rest) := rfl
    change (classify dialect atLineStart Byte.carriageReturn rest).1 = _ at ends
    change (_ :: rest.take (classify dialect atLineStart Byte.carriageReturn rest).2).getLast? = _
    rw [classified] at ends ⊢
    split at ends
    · next newlineNext =>
        obtain ⟨behind, rfl⟩ := List.head?_eq_some_iff.mp (beq_iff_eq.mp newlineNext)
        rfl
    · contradiction

/-- A token either stands inside a line or ends with the newline that ends the
line. -/
theorem classify_cases (dialect : Dialect) (atLineStart : Bool)
    (first : UInt8) (rest : Bytes) :
    IsInner (classify dialect atLineStart first rest).1 ∨
      (classify dialect atLineStart first rest).1 = .eol ∧
        (first :: rest.take
          (classify dialect atLineStart first rest).2).getLast? =
            some Byte.newline := by
  by_cases ends : (classify dialect atLineStart first rest).1 = .eol
  · exact .inr ⟨ends, getLast?_of_eol ends⟩
  · exact .inl (isInner_of_mem (classify_mem dialect atLineStart first rest) ends)

/-- A token as the scanner makes them: it has a kind of tokens and a text, and
it ends with a newline if it ends a line. -/
structure IsScanned (token : Token) : Prop where
  kind_cases : IsInner token.kind ∨ token.kind = .eol
  text_ne_nil : token.text ≠ []
  ends_with_newline :
    token.kind = .eol → token.text.getLast? = some Byte.newline

theorem isScanned_firstToken (dialect : Dialect) (atLineStart : Bool)
    (first : UInt8) (rest : Bytes) :
    IsScanned (firstToken dialect atLineStart first rest) := by
  rcases classify_cases dialect atLineStart first rest with inner | ends
  · exact ⟨.inl inner, by simp [firstToken], fun isEol => absurd isEol inner.2⟩
  · exact ⟨.inr ends.1, by simp [firstToken], fun _ => ends.2⟩

theorem isScanned_of_mem {dialect : Dialect} {atLineStart : Bool} {text : Bytes}
    {token : Token} (scanned : token ∈ scanFrom dialect atLineStart 0 text) :
    IsScanned token := by
  induction atLineStart, text using scanInduct dialect with
  | nil => simp [scanFrom] at scanned
  | cons atLineStart first rest ih =>
      rw [scanFrom_cons] at scanned
      rcases List.mem_cons.mp scanned with rfl | later
      · exact isScanned_firstToken dialect atLineStart first rest
      · exact ih later

/-- What stands behind some tokens is scanned as it is, in some state. -/
theorem exists_scanFrom_of_append {dialect : Dialect} {atLineStart : Bool}
    {before more : List Token} {text : Bytes}
    (scanned : scanFrom dialect atLineStart 0 text = before ++ more) :
    ∃ state, scanFrom dialect state 0 (more.flatMap Token.text) = more := by
  induction before generalizing atLineStart text with
  | nil =>
      refine ⟨atLineStart, ?_⟩
      have texts := flatMap_text_scanFrom dialect atLineStart text
      rw [scanned] at texts
      rw [List.nil_append] at scanned texts
      rw [texts, scanned]
  | cons token before ih =>
      cases text with
      | nil => contradiction
      | cons first rest =>
          rw [scanFrom_cons] at scanned
          exact ih (List.cons.inj scanned).2

theorem isScanned_of_mem_scan {dialect : Dialect} {text : Bytes} {token : Token}
    (scanned : token ∈ scan dialect text) : IsScanned token :=
  isScanned_of_mem scanned

theorem lineFrom_skip (dialect : Dialect) (atLineStart : Bool) (skip : Nat)
    (text : Bytes) :
    lineFrom dialect atLineStart skip text =
      lineFrom dialect atLineStart 0 (text.drop skip) := by
  induction text generalizing skip with
  | nil => simp [lineFrom]
  | cons first rest ih =>
      cases skip with
      | zero => rfl
      | succ skip => simpa [lineFrom] using ih skip

theorem lineFrom_cons (dialect : Dialect) (atLineStart : Bool) (first : UInt8)
    (rest : Bytes) :
    lineFrom dialect atLineStart 0 (first :: rest) =
      if (firstToken dialect atLineStart first rest).kind = .eol then
        [firstToken dialect atLineStart first rest]
      else
        firstToken dialect atLineStart first rest ::
          lineFrom dialect
            (lineStartAfter atLineStart
              (firstToken dialect atLineStart first rest).kind) 0
            (rest.drop (classify dialect atLineStart first rest).2) := by
  rw [← lineFrom_skip]
  rfl

theorem drop_firstToken (dialect : Dialect) (atLineStart : Bool)
    (first : UInt8) (rest : Bytes) :
    (first :: rest).drop (firstToken dialect atLineStart first rest).length =
      rest.drop (classify dialect atLineStart first rest).2 := by
  simp only [firstToken, Token.length, List.length_cons, List.length_take,
    List.drop_succ_cons]
  rcases Nat.le_total (classify dialect atLineStart first rest).2 rest.length with
    short | long
  · rw [Nat.min_eq_left short]
  · rw [Nat.min_eq_right long, List.drop_length, List.drop_of_length_le long]

/-- The first line of a text is the one that the reader scans, and the reader
goes on with the lines of what is behind it. -/
theorem lines_scanFrom (dialect : Dialect) (atLineStart : Bool) {text : Bytes}
    (nonempty : text ≠ []) :
    lines (scanFrom dialect atLineStart 0 text) =
      lineFrom dialect atLineStart 0 text ::
        lines (scan dialect
          (text.drop (totalLength (lineFrom dialect atLineStart 0 text)))) := by
  induction atLineStart, text using scanInduct dialect with
  | nil => contradiction
  | cons atLineStart first rest ih =>
      rw [scanFrom_cons, lineFrom_cons]
      have behind := drop_firstToken dialect atLineStart first rest
      by_cases isEol : (firstToken dialect atLineStart first rest).kind = .eol
      · have fresh : lineStartAfter atLineStart Kind.eol = true := rfl
        rw [lines_cons_of_eol isEol, if_pos isEol, isEol, fresh, totalLength,
          totalLength, Nat.add_zero, behind]
        rfl
      · rw [if_neg isEol, totalLength, ← List.drop_drop, behind]
        generalize lineStartAfter atLineStart
          (firstToken dialect atLineStart first rest).kind = next at ih ⊢
        generalize rest.drop (classify dialect atLineStart first rest).2 = remaining at ih ⊢
        cases remaining with
        | nil => simp [scanFrom, lineFrom, lines, isEol, scan]
        | cons second others =>
            simp only [lines, isEol, if_false]
            rw [ih (by simp)]

theorem lines_scan (dialect : Dialect) {text : Bytes} (nonempty : text ≠ []) :
    lines (scan dialect text) =
      line dialect text ::
        lines (scan dialect
          (text.drop (totalLength (line dialect text)))) :=
  lines_scanFrom dialect true nonempty

end Scan
end Asm6502
