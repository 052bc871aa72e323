import Asm6502.Command

/-!
# The command line

Reads the file that the arguments name, runs the command on it, and prints what
it says.
-/

open Asm6502

def unreadable : IO.Error → Unreadable
  | .noFileOrDirectory .. => .missing
  | error => .other (toString error)

def readContent (path : String) : IO (Except Unreadable Bytes) := do
  try
    let content ← IO.FS.readBinFile path
    return .ok content.toList
  catch error => return .error (unreadable error)

def main (arguments : List String) : IO UInt32 := do
  match Command.ofArguments? arguments with
  | none =>
      IO.eprintln "usage: parse PATH | query PATH PATTERN | reparse PATH START END REPLACEMENT"
      return 2
  | some command =>
      let result := command.run (← readContent command.path)
      for line in result.output do
        IO.println line
      for line in result.errors do
        IO.eprintln line
      return result.exitCode.toUInt32
