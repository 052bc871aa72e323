import Asm6502.Proofs.FencedTokens

/-!
# Braced lists of tokens

A list of tokens in braces ends at the brace that matches the first one.  What stands
around it in a text is scanned the same whatever list it is, and cut into the same lines,
as long as the list itself stays on its line.
-/

namespace Asm6502

/-- How many braces are open behind some kinds when `depth` were open before them; none
if one is closed that has not been opened. -/
def Kind.braceDepth? : (depth : Nat) → List Kind → Option Nat
  | depth, [] => some depth
  | depth, kind :: rest =>
      match kind with
      | .leftBrace => braceDepth? (depth + 1) rest
      | .rightBrace => if depth = 0 then none else braceDepth? (depth - 1) rest
      | _ => braceDepth? depth rest

/-- Every brace is closed, and none that has not been opened. -/
def Kind.Balanced (kinds : List Kind) : Prop :=
  Kind.braceDepth? 0 kinds = some 0

instance (kinds : List Kind) : Decidable (Kind.Balanced kinds) :=
  inferInstanceAs (Decidable (_ = _))

namespace Token

def leftBrace : Token := ⟨.leftBrace, [0x7b]⟩

def rightBrace : Token := ⟨.rightBrace, [0x7d]⟩

def braced (inside : List Token) : List Token :=
  leftBrace :: (inside ++ [rightBrace])

/-- Tokens that can stand between the braces of a list: they stay on the line, and each
of them stands for itself. -/
structure FillsBraces (inside : List Token) : Prop where
  balanced : Kind.Balanced (inside.map kind)
  plain : ∀ token ∈ inside, token.kind ∉ [.eol, .comment, .lineContinuation, .errorToken]

instance (inside : List Token) : Decidable (FillsBraces inside) :=
  decidable_of_iff (Kind.Balanced (inside.map kind) ∧
      ∀ token ∈ inside, token.kind ∉ [.eol, .comment, .lineContinuation, .errorToken])
    ⟨fun ⟨balanced, plain⟩ => ⟨balanced, plain⟩, fun fills => ⟨fills.balanced, fills.plain⟩⟩

theorem braced_append (inside behind : List Token) :
    braced inside ++ behind = leftBrace :: (inside ++ rightBrace :: behind) := by
  rw [braced, List.cons_append, List.append_assoc, List.singleton_append]

theorem braced_ne_nil (inside : List Token) : braced inside ≠ [] :=
  List.cons_ne_nil _ _

theorem unbroken_braced {inside : List Token} (unbroken : Unbroken inside) :
    Unbroken (braced inside) := by
  intro token member
  rcases List.mem_cons.mp member with rfl | member
  · exact Kind.noConfusion
  · rcases List.mem_append.mp member with member | member
    · exact unbroken token member
    · rw [List.mem_singleton.mp member]
      exact Kind.noConfusion

theorem totalLength_braced (inside : List Token) :
    totalLength (braced inside) = totalLength inside + 2 := by
  simp [braced, totalLength, leftBrace, rightBrace, length]
  omega

theorem flatMap_text_braced (inside : List Token) :
    (braced inside).flatMap text = 0x7b :: (inside.flatMap text ++ [0x7d]) := by
  simp [braced, leftBrace, rightBrace]

/-- The tokens up to the end of the line, line end included. -/
def restOfLine (tokens : List Token) : List Token :=
  (lines tokens).headD []

theorem restOfLine_subset (tokens : List Token) : restOfLine tokens ⊆ tokens := by
  intro token member
  rw [restOfLine] at member
  rw [← flatten_lines tokens]
  generalize lines tokens = lines at member ⊢
  cases lines with
  | nil => contradiction
  | cons line others => exact List.mem_append_left _ member

theorem lines_append_of_unbroken {middle : List Token} (nonempty : middle ≠ [])
    (unbroken : Unbroken middle) (behind : List Token) :
    lines (middle ++ behind) =
      (middle ++ restOfLine behind) :: (lines behind).tail := by
  induction middle with
  | nil => contradiction
  | cons token rest ih =>
      have notEol : token.kind ≠ .eol := unbroken token List.mem_cons_self
      rw [List.cons_append, lines, if_neg notEol]
      cases rest with
      | nil =>
          rw [List.nil_append, restOfLine]
          cases lines behind <;> rfl
      | cons second rest =>
          rw [ih (List.cons_ne_nil _ _)
            fun other member => unbroken other (List.mem_cons_of_mem _ member)]
          rfl

/-- Around tokens that stay on a line, the lines are the same whatever these are. -/
theorem exists_lines_around (before behind : List Token) :
    ∃ earlier front, before = List.flatten earlier ++ front ∧ Unbroken front ∧
      ∀ middle, middle ≠ [] → Unbroken middle →
        lines (before ++ middle ++ behind) =
          earlier ++ (front ++ middle ++ restOfLine behind) :: (lines behind).tail := by
  induction before with
  | nil =>
      exact ⟨[], [], rfl, fun _ member => absurd member List.not_mem_nil,
        fun middle nonempty unbroken => lines_append_of_unbroken nonempty unbroken behind⟩
  | cons token before ih =>
      obtain ⟨earlier, front, rfl, unbroken, around⟩ := ih
      by_cases isEol : token.kind = .eol
      · refine ⟨[token] :: earlier, front, rfl, unbroken, fun middle nonempty stays => ?_⟩
        rw [List.cons_append, List.cons_append, lines_cons_of_eol isEol,
          around middle nonempty stays, List.cons_append]
      · cases earlier with
        | nil =>
            refine ⟨[], token :: front, rfl, ?_, fun middle nonempty stays => ?_⟩
            · intro other member
              rcases List.mem_cons.mp member with rfl | later
              · exact isEol
              · exact unbroken other later
            · rw [List.cons_append, List.cons_append, lines, if_neg isEol,
                around middle nonempty stays]
              rfl
        | cons first earlier =>
            refine ⟨(token :: first) :: earlier, front, rfl, unbroken,
              fun middle nonempty stays => ?_⟩
            rw [List.cons_append, List.cons_append, lines, if_neg isEol,
              around middle nonempty stays]
            rfl

end Token

namespace Scan

variable {dialect : Dialect} {atLineStart : Bool} {before inside behind : List Token}

theorem single?_eq_leftBrace {char : Char} :
    single? char = some .leftBrace ↔ char = '\x7b' := by
  unfold single?
  split <;> simp_all

theorem single?_eq_rightBrace {char : Char} :
    single? char = some .rightBrace ↔ char = '\x7d' := by
  unfold single?
  split <;> simp_all

theorem eq_brace_of_mem {text : Bytes} {token : Token}
    (member : token ∈ scanFrom dialect atLineStart 0 text) :
    (token.kind = .leftBrace → token = Token.leftBrace) ∧
      (token.kind = .rightBrace → token = Token.rightBrace) := by
  obtain ⟨earlier, later, split⟩ := List.append_of_mem member
  obtain ⟨state, scanned⟩ := exists_scanFrom_of_append split
  obtain ⟨first, rest, isText⟩ : ∃ first rest,
      (token :: later).flatMap Token.text = first :: rest := by
    refine List.exists_cons_of_ne_nil fun empty => ?_
    rw [empty] at scanned
    exact List.cons_ne_nil _ _ scanned.symm
  rw [isText, scanFrom_cons] at scanned
  obtain ⟨isFirst, -⟩ := List.cons.inj scanned
  have single {kind : Kind} (brace : kind = .leftBrace ∨ kind = .rightBrace)
      (isKind : token.kind = kind) : single? (Byte.char first) = some kind ∧
        token = ⟨kind, [first]⟩ := by
    have among := classify_mem dialect state first rest
    rw [← isFirst] at isKind
    rw [show (classify dialect state first rest).1 = kind from isKind] at among
    have found := single?_of_brace_mem brace among
    refine ⟨found, ?_⟩
    rw [← isFirst, firstToken, classify, found]
    rfl
  refine ⟨fun isLeft => ?_, fun isRight => ?_⟩
  · obtain ⟨found, same⟩ := single (.inl rfl) isLeft
    have isChar : Byte.char first = Byte.char 0x7b := single?_eq_leftBrace.mp found
    rw [same, Byte.char_injective isChar, Token.leftBrace]
  · obtain ⟨found, same⟩ := single (.inr rfl) isRight
    have isChar : Byte.char first = Byte.char 0x7d := single?_eq_rightBrace.mp found
    rw [same, Byte.char_injective isChar, Token.rightBrace]

/-- Tokens of a text are a list in braces if their kinds are. -/
theorem exists_braced {text : Bytes} {tokens : List Token} {kinds : List Kind}
    (included : tokens ⊆ scanFrom dialect atLineStart 0 text)
    (braces : tokens.map Token.kind = .leftBrace :: (kinds ++ [.rightBrace])) :
    ∃ inside, tokens = Token.braced inside ∧ inside.map Token.kind = kinds := by
  obtain ⟨first, others, rfl, isFirst, braces⟩ := List.map_eq_cons_iff.mp braces
  obtain ⟨inside, ends, rfl, insideKinds, braces⟩ := List.map_eq_append_iff.mp braces
  obtain ⟨last, rfl, isLast⟩ := List.map_eq_singleton_iff.mp braces
  refine ⟨inside, ?_, insideKinds⟩
  rw [(eq_brace_of_mem (included (by simp))).1 isFirst,
    (eq_brace_of_mem (included (by simp))).2 isLast, Token.braced]

/-- A list in braces is scanned apart from the tokens before it and behind it. -/
theorem scanFrom_around_braced {text : Bytes}
    (scanned : scanFrom dialect atLineStart 0 text = before ++ Token.braced inside ++ behind) :
    (∀ rest, scanFrom dialect atLineStart 0 (before.flatMap Token.text ++ 0x7b :: rest) =
        before ++ Token.leftBrace :: scanFrom dialect false 0 rest) ∧
      scanFrom dialect false 0 (behind.flatMap Token.text) = behind := by
  have opens (rest : Bytes) : Bytes.Fenced (0x7b :: rest) := .inl rfl
  have closes (rest : Bytes) : Bytes.Fenced (0x7d :: rest) := .inr rfl
  have textOf := flatMap_text_scanFrom dialect atLineStart text
  rw [scanned, List.flatMap_append, List.flatMap_append, Token.flatMap_text_braced] at textOf
  have whole : scanFrom dialect atLineStart 0 (before.flatMap Token.text ++
      0x7b :: (inside.flatMap Token.text ++ 0x7d :: behind.flatMap Token.text)) =
      before ++ Token.leftBrace :: (inside ++ Token.rightBrace :: behind) := by
    rw [← Token.braced_append, ← List.append_assoc, ← scanned, ← textOf]
    simp
  have sameFront (rest : Bytes) := scanFrom_append_fence (opens _) (opens rest) whole
    (Token.totalLength_eq_length_flatMap before) fun empty => by contradiction
  refine ⟨fun rest => by rw [sameFront, scanFrom_leftBrace]; rfl, ?_⟩
  rw [sameFront, scanFrom_leftBrace] at whole
  have list := (List.cons.inj (List.append_cancel_left whole)).2
  have sameInside := scanFrom_append_fence (closes _) (closes (behind.flatMap Token.text)) list
    (Token.totalLength_eq_length_flatMap inside) fun empty => by contradiction
  rw [list, scanFrom_rightBrace] at sameInside
  exact (List.cons.inj (List.append_cancel_left sameInside)).2.symm

theorem scanFrom_braced {text filler : Bytes}
    (scanned : scanFrom dialect atLineStart 0 text = before ++ Token.braced inside ++ behind)
    (fills : Token.FillsBraces (scanFrom dialect false 0 filler)) :
    scanFrom dialect atLineStart 0
        (before.flatMap Token.text ++ 0x7b :: (filler ++ 0x7d :: behind.flatMap Token.text)) =
      before ++ Token.braced (scanFrom dialect false 0 filler) ++ behind := by
  obtain ⟨front, tail⟩ := scanFrom_around_braced scanned
  have alone : scanFrom dialect false 0 (filler ++ []) =
      scanFrom dialect false 0 filler ++ [] := by
    rw [List.append_nil, List.append_nil]
  have covered : Token.totalLength (scanFrom dialect false 0 filler) = filler.length := by
    rw [Token.totalLength_eq_length_flatMap, flatMap_text_scanFrom]
  have ends : Bytes.Fenced [] := trivial
  have closes : Bytes.Fenced (0x7d :: behind.flatMap Token.text) := .inr rfl
  rw [front, scanFrom_append_fence ends closes alone covered, scanFrom_rightBrace, tail,
    List.append_assoc, Token.braced_append]
  · rfl
  · intro _ token member
    have plain := fills.plain token member
    simp only [List.mem_cons, List.not_mem_nil, or_false, not_or] at plain
    exact ⟨plain.2.1, plain.2.2.2⟩

end Scan
end Asm6502
