import Asm6502.Proofs.QueryLexing
import Asm6502.Query.Compile

/-!
# Writing queries

A phrase is a pattern as it is written, with the names of captures instead of their
numbers.  Reading what is printed for a phrase adds the pattern it stands for, with
captures numbered by the distinct names in the order of their first use.
-/

namespace Asm6502
namespace Query

/-- A pattern as it is written. -/
inductive Phrase where
  /-- `_` -/
  | any (capture? : Option String)
  /-- Text between double quotes. -/
  | text (chars : List Char) (capture? : Option String)
  /-- A kind, or none for `_`, and child patterns between parentheses. -/
  | node (kind? : Option Kind) (children : List Phrase) (capture? : Option String)

namespace Phrase

def captureLexemes (capture? : Option String) : List Lexeme :=
  (capture?.map fun name => (TokenKind.capture, '@' :: name.toList)).toList

def headLexeme : Option Kind → Lexeme
  | none => (.wildcard, ['_'])
  | some kind => (.name, kind.name.toList)

mutual

/-- The tokens of a phrase. -/
def print : Phrase → List Lexeme
  | .any capture? => (.wildcard, ['_']) :: captureLexemes capture?
  | .text chars capture? => (.text, '"' :: (chars ++ ['"'])) :: captureLexemes capture?
  | .node kind? children capture? =>
      (.leftParen, ['(']) :: headLexeme kind? ::
        (printAll children ++ (.rightParen, [')']) :: captureLexemes capture?)

def printAll : List Phrase → List Lexeme
  | [] => []
  | phrase :: rest => phrase.print ++ printAll rest

end

/-- The name of a capture can be written. -/
def NameFits (name : String) : Prop :=
  ∃ first rest, name.toList = first :: rest ∧ Token.startsCapture first = true ∧
    ∀ char ∈ rest, Token.continuesCapture char = true

mutual

/-- A phrase can be written inside of `depth` parentheses: kinds have names, texts can
be quoted, and parentheses are not nested too deeply. -/
def Fits (depth : Nat) : Phrase → Prop
  | .any capture? => ∀ name ∈ capture?, NameFits name
  | .text chars capture? =>
      (∀ char ∈ chars, char ≠ '"' ∧ char ≠ '\n') ∧ ∀ name ∈ capture?, NameFits name
  | .node kind? children capture? =>
      depth ≤ maxDepth ∧ kind? ≠ some .tombstone ∧ AllFit (depth + 1) children ∧
        ∀ name ∈ capture?, NameFits name

def AllFit (depth : Nat) : List Phrase → Prop
  | [] => True
  | phrase :: rest => Fits depth phrase ∧ AllFit depth rest

end

def headMatcher : Option Kind → Matcher
  | none => .named
  | some kind => .kind kind

mutual

/-- The pattern of a phrase, if captures are numbered by their names in a list. -/
def resolve (names : List String) : Phrase → Pattern
  | .any capture? => ⟨.any, capture?.map names.idxOf, []⟩
  | .text chars capture? => ⟨.text chars, capture?.map names.idxOf, []⟩
  | .node kind? children capture? =>
      ⟨headMatcher kind?, capture?.map names.idxOf, resolveAll names children⟩

def resolveAll (names : List String) : List Phrase → List Pattern
  | [] => []
  | phrase :: rest => resolve names phrase :: resolveAll names rest

end

end Phrase

/-- The name that a capture token gives. -/
def Lexeme.captureName? (lexeme : Lexeme) : Option String :=
  if lexeme.1 = .capture then some (String.ofList (lexeme.2.drop 1)) else none

/-- The distinct names of captures, in the order of their first use. -/
def captureNames (lexemes : List Lexeme) : List String :=
  (lexemes.filterMap Lexeme.captureName?).eraseDups

def ofPhrases (phrases : List Phrase) : Query :=
  let names := captureNames (Phrase.printAll phrases)
  ⟨Phrase.resolveAll names phrases, names⟩

theorem captureNames_prefix_append (seen more : List Lexeme) :
    captureNames seen <+: captureNames (seen ++ more) := by
  rw [captureNames, captureNames, List.filterMap_append, List.eraseDups_append]
  exact List.prefix_append _ _

theorem captureNames_append_of_none {seen : List Lexeme} {lexeme : Lexeme}
    (noName : lexeme.captureName? = none) :
    captureNames (seen ++ [lexeme]) = captureNames seen := by
  simp [captureNames, noName]

theorem mem_captureNames {seen : List Lexeme} {lexeme : Lexeme} {name : String}
    (member : lexeme ∈ seen) (named : lexeme.captureName? = some name) :
    name ∈ captureNames seen := by
  rw [captureNames, List.mem_eraseDups, List.mem_filterMap]
  exact ⟨lexeme, member, named⟩

theorem captureName?_capture (name : String) :
    Lexeme.captureName? (.capture, '@' :: name.toList) = some name := by
  simp [Lexeme.captureName?]

theorem idxOf_of_mem_of_isPrefix {names all : List String} {name : String} (member : name ∈ names)
    (isPrefix : names <+: all) : all.idxOf name = names.idxOf name := by
  obtain ⟨others, rfl⟩ := isPrefix
  rw [List.idxOf_append, if_pos member]

/-- A name is given the number that it has among all names used so far. -/
theorem nameIndex_captureNames (seen : List Lexeme) {lexeme : Lexeme} {name : String}
    (named : lexeme.captureName? = some name) :
    Compilation.nameIndex name (captureNames seen) =
      ((captureNames (seen ++ [lexeme])).idxOf name, captureNames (seen ++ [lexeme])) := by
  have split : captureNames (seen ++ [lexeme]) = captureNames seen ++
      ([name].removeAll (seen.filterMap Lexeme.captureName?)).eraseDups := by
    simp [captureNames, List.filterMap_append, named, List.eraseDups_append]
  by_cases used : name ∈ captureNames seen
  · have again : name ∈ seen.filterMap Lexeme.captureName? := by
      simpa [captureNames, List.mem_eraseDups] using used
    have found : (captureNames seen).findIdx? (· == name) =
        some ((captureNames seen).idxOf name) :=
      List.findIdx?_eq_some_of_exists ⟨name, used, beq_self_eq_true name⟩
    have same : captureNames (seen ++ [lexeme]) = captureNames seen := by
      simpa [List.removeAll, again] using split
    rw [Compilation.nameIndex, found, same]
  · have new : name ∉ seen.filterMap Lexeme.captureName? := by
      simpa [captureNames, List.mem_eraseDups] using used
    have absent : (captureNames seen).findIdx? (· == name) = none := by
      rw [List.findIdx?_eq_none_iff]
      rintro other member
      rw [beq_eq_false_iff_ne]
      rintro rfl
      exact used member
    have longer : captureNames (seen ++ [lexeme]) = captureNames seen ++ [name] := by
      simpa [List.removeAll, new, List.eraseDups_cons] using split
    rw [Compilation.nameIndex, absent, longer, List.idxOf_append, if_neg used]
    simp

end Query
end Asm6502
