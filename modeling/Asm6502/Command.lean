import Asm6502.Diagnostic.Snippet
import Asm6502.Folder
import Asm6502.Parse.Outcome
import Asm6502.Query.Compile
import Asm6502.Query.Search
import Asm6502.Text.SourceFile
import Asm6502.Tree.Outline

/-!
# Commands

The command line inspects one source file: it prints the syntax tree, the
captures of a query, or the tree after an edit that is parsed incrementally.
A command is a pure function of its arguments and of the file's content.
-/

namespace Asm6502

/-- What to do with a file. -/
inductive Action where
  /-- Print the tree. -/
  | parse
  /-- Print the captures of a query. -/
  | query (pattern : String)
  /-- Replace a span and print the tree of the result. -/
  | reparse (start stop : Nat) (replacement : Bytes)
deriving DecidableEq, Repr

structure Command where
  path : String
  action : Action
  maxLength? : Option Nat
deriving DecidableEq, Repr

/-- What a command prints, line by line, and how it ends. -/
structure CommandResult where
  output : List String
  errors : List String
  exitCode : Nat
deriving DecidableEq, Repr

namespace Command

/-- Options, which can stand anywhere, and the other arguments in order. -/
structure Arguments where
  maxLength? : Option Nat := none
  others : List String := []
deriving DecidableEq, Repr

/-- A number in decimal digits, with or without a sign in front. -/
def number? (text : String) : Option Nat :=
  let digits :=
    match text.toList with
    | '+' :: rest => rest
    | digits => digits
  if digits.all Char.isDigit then (String.ofList digits).toNat? else none

def sortArguments : List String → Option Arguments
  | [] => some {}
  | "--no-color" :: rest => sortArguments rest
  | "--max-size" :: size :: rest => do
      let limit ← number? size
      let arguments ← sortArguments rest
      return { arguments with maxLength? := some limit }
  | argument :: rest => do
      let arguments ← sortArguments rest
      match argument.toList with
      | '-' :: '-' :: 'm' :: 'a' :: 'x' :: '-' :: 's' :: 'i' :: 'z' :: 'e' ::
          '=' :: size =>
          let limit ← number? (String.ofList size)
          return { arguments with maxLength? := some limit }
      | _ => return { arguments with others := argument :: arguments.others }

def ofArguments? (arguments : List String) : Option Command := do
  let sorted ← sortArguments arguments
  match sorted.others with
  | ["parse", path] => some ⟨path, .parse, sorted.maxLength?⟩
  | ["query", path, pattern] =>
      some ⟨path, .query pattern, sorted.maxLength?⟩
  | ["reparse", path, start, stop, replacement] =>
      let start ← number? start
      let stop ← number? stop
      some ⟨path, .reparse start stop replacement.toUTF8.toList,
        sorted.maxLength?⟩
  | _ => none

/-- A command that ends early. -/
inductive Failure where
  /-- The file cannot be read. -/
  | unreadable (path : String) (cause : Unreadable)
  | tooLarge (error : InputTooLarge)
  /-- The query does not compile; it has been shown where. -/
  | invalidQuery (shown : List String)
  /-- The edit lies outside of the text. -/
  | outside (start stop length : Nat)
deriving DecidableEq, Repr

/-- The lines that report a failure. -/
def Failure.lines : Failure → List String
  | .unreadable path cause =>
      ["Error: failed to read `" ++ path ++ "`", "", "Caused by:",
        "    " ++ cause.message]
  | .tooLarge error => ["Error: " ++ error.message]
  | .invalidQuery shown => shown ++ ["Error: invalid query"]
  | .outside start stop length =>
      ["Error: edit range " ++ (Span.mk start stop).render ++
        " is outside of the text (0.." ++ toString length ++ ")"]

def report (file : SourceFile) (parse : Parse) : List String :=
  parse.diagnostics.flatMap
    (Diagnostic.render file.path file.displayText.toList)

def matchLines (file : SourceFile) (arena : Arena) (query : Query)
    (found : Query.Match) : List String :=
  found.captures.map fun capture =>
    let start := (arena.span capture.element).start
    let point := (file.point? start).getD (Point.ofOffset file.text start)
    file.path ++ ":" ++ toString (point.row + 1) ++ ":" ++
      toString (point.column + 1) ++ " pattern " ++ toString found.pattern ++
      " @" ++ query.names.getD capture.index "" ++ " " ++
      (arena.kind capture.element).spelling ++ " " ++
      Quoted.render (arena.elementText capture.element)

/-- The lines for all captures of a query in the tree of a parse. -/
def queryLines? (file : SourceFile) (parse : Parse) (query : Query) :
    Option (List String) := do
  let arena ← Arena.ofTree? parse.text parse.root
  let found ← query.matchesBelow arena 0
  return found.flatMap (matchLines file arena query)

def orFail {ε α : Type} (failure : ε → Failure) (result : Except ε α) :
    Except Failure α :=
  result.mapError failure

def parseFile (options : ParseOptions) (file : SourceFile) :
    Except Failure Parse :=
  orFail .tooLarge (Parse.ofText? .stock options file.text)

/-- The output and the messages of a command that does not fail. -/
def perform (command : Command) (content : Except Unreadable Bytes) :
    Except Failure (List String × List String) := do
  let options : ParseOptions := { maxLength? := command.maxLength? }
  let load : Except Failure SourceFile :=
    match content with
    | .ok text => .ok ⟨command.path, text⟩
    | .error cause => .error (.unreadable command.path cause)
  match command.action with
  | .parse =>
      let file ← load
      let parse ← parseFile options file
      return (parse.place.outlineLines parse.text, report file parse)
  | .query pattern =>
      let query ← orFail
        (fun error => Failure.invalidQuery
          (Diagnostic.render "<query>" pattern.toList
            ⟨error.message, error.span⟩))
        (Query.compile pattern)
      let file ← load
      let parse ← parseFile options file
      return ((queryLines? file parse query).getD [], report file parse)
  | .reparse start stop replacement =>
      let file ← load
      let old ← parseFile options file
      if stop < start || file.text.length < stop then
        throw (.outside start stop file.text.length)
      let span : Span := ⟨start, stop⟩
      let edit := Edit.replace file.text span replacement
      let text := Edit.splice file.text span replacement
      let (parse, reuse) ← orFail .tooLarge
        (Parse.reparse? .stock options old [edit] text)
      return (parse.place.outlineLines parse.text,
        ("reused " ++ toString ((parse.shared reuse).count true) ++ " of " ++
          toString parse.root.children.length ++ " top-level nodes") ::
          report ⟨file.path, text⟩ parse)

/-- Run a command on the content of its file, if that can be read. -/
def run (command : Command) (content : Except Unreadable Bytes) :
    CommandResult :=
  match command.perform content with
  | .ok (output, errors) => ⟨output, errors, 0⟩
  | .error failure => ⟨[], failure.lines, 1⟩

/-- Run a command on a file of a folder. -/
def runIn (command : Command) (folder : Folder) : CommandResult :=
  command.run (folder.read command.path)

end Command
end Asm6502
