import Asm6502.Query.Pattern

/-!
# Compiling queries

Patterns are read token by token with the open ones on a stack, so the first
token that cannot continue a query is the one that is reported.
-/

namespace Asm6502
namespace Query

/-- A pattern whose closing parenthesis has not been read. -/
structure OpenPattern where
  /-- The span of the opening parenthesis. -/
  paren : Span
  matcher : Matcher
  /-- Children, latest first. -/
  children : List Pattern
deriving Repr

/-- What can come next. -/
inductive Expectation where
  /-- A pattern, or the end of the innermost open one. -/
  | pattern
  /-- The same, or a capture of the pattern that was just completed. -/
  | captureOrPattern
  /-- The head of a pattern, behind its opening parenthesis. -/
  | head (paren : Span)
deriving DecidableEq, Repr

/-- A query that has been read up to some token. -/
structure Compilation where
  expectation : Expectation := .pattern
  /-- Open patterns, innermost first. -/
  opened : List OpenPattern := []
  /-- Complete patterns outside of open ones, latest first. -/
  complete : List Pattern := []
  names : List String := []
deriving Repr

namespace Compilation

/-- Add a complete pattern where it belongs. -/
def add (pattern : Pattern) (state : Compilation) : Compilation :=
  match state.opened with
  | [] =>
      { state with
        expectation := .captureOrPattern
        complete := pattern :: state.complete }
  | innermost :: outer =>
      { state with
        expectation := .captureOrPattern
        opened :=
          { innermost with children := pattern :: innermost.children } ::
            outer }

/-- The index of a capture name, which is new or has been used before. -/
def nameIndex (name : String) (names : List String) : Nat × List String :=
  match names.findIdx? (· == name) with
  | some index => (index, names)
  | none => (names.length, names ++ [name])

def capture (name : String) (state : Compilation) : Compilation :=
  let (index, names) := nameIndex name state.names
  match state.opened with
  | [] =>
      { state with
        expectation := .pattern
        complete :=
          (state.complete.take 1).map (Pattern.captured index) ++
            state.complete.drop 1
        names := names }
  | innermost :: outer =>
      { state with
        expectation := .pattern
        opened :=
          { innermost with
            children :=
              (innermost.children.take 1).map (Pattern.captured index) ++
                innermost.children.drop 1 } :: outer
        names := names }

def push (paren : Span) (matcher : Matcher) (state : Compilation) :
    Compilation :=
  { state with
    expectation := .pattern
    opened := ⟨paren, matcher, []⟩ :: state.opened }

def unexpected (token : Token) : CompileError :=
  .unexpected (String.ofList token.chars) token.span

def readHead (paren : Span) (token : Token) (state : Compilation) :
    Except CompileError Compilation :=
  match token.kind with
  | .wildcard => .ok (state.push paren .named)
  | .name =>
      match Kind.ofName? (String.ofList token.chars) with
      | some kind => .ok (state.push paren (.kind kind))
      | none =>
          .error (.unknownKind (String.ofList token.chars) token.span)
  | _ => .error (unexpected token)

def readItem (token : Token) (state : Compilation) :
    Except CompileError Compilation :=
  match token.kind with
  | .leftParen =>
      if maxDepth < state.opened.length then .error (.tooDeep token.span)
      else .ok { state with expectation := .head token.span }
  | .rightParen =>
      match state.opened with
      | [] => .error (unexpected token)
      | innermost :: outer =>
          .ok (add ⟨innermost.matcher, none, innermost.children.reverse⟩
            { state with opened := outer })
  | .wildcard => .ok (state.add ⟨.any, none, []⟩)
  | .text =>
      .ok (state.add ⟨.text (token.chars.drop 1).dropLast, none, []⟩)
  | .capture =>
      if state.expectation = .captureOrPattern then
        .ok (state.capture (String.ofList (token.chars.drop 1)))
      else .error (unexpected token)
  | _ => .error (unexpected token)

def read (state : Compilation) (token : Token) :
    Except CompileError Compilation :=
  match state.expectation with
  | .head paren => state.readHead paren token
  | _ => state.readItem token

/-- The query, if it can end here; `length` is where it ends. -/
def finish (length : Nat) (state : Compilation) : Except CompileError Query :=
  match state.expectation, state.opened with
  | .head _, _ => .error (.unexpectedEnd (Span.empty length))
  | _, innermost :: _ => .error (.unclosed innermost.paren)
  | _, [] => .ok ⟨state.complete.reverse, state.names⟩

end Compilation

/-- Compile a query. -/
def compile (source : String) : Except CompileError Query := do
  let state ← (Token.scan source.toList).foldlM Compilation.read {}
  state.finish (Utf8.totalSize source.toList)

end Query
end Asm6502
