import Asm6502.Byte

/-!
# Folders

A folder holds files by their names.  A path leads to a file part by part, and
reading says why there is nothing to read.
-/

namespace Asm6502

/-- Why nothing can be read at a path. -/
inductive Unreadable where
  | missing
  | notDirectory
  | isDirectory
  | nameTooLong
  | other (message : String)
deriving DecidableEq, Repr

/-- The system's words and number for what went wrong. -/
def Unreadable.message : Unreadable → String
  | .missing => "No such file or directory (os error 2)"
  | .notDirectory => "Not a directory (os error 20)"
  | .isDirectory => "Is a directory (os error 21)"
  | .nameTooLong => "File name too long (os error 36)"
  | .other message => message

/-- Files by name.  A name with slashes lies in a folder inside. -/
structure Folder where
  files : List (String × Bytes)
deriving DecidableEq, Repr

namespace Folder

/-- The parts of a path between its slashes. -/
def parts (path : String) : List String :=
  path.splitOn "/"

/-- What a folder holds under a name. -/
inductive Entry where
  | file (content : Bytes)
  | folder
deriving DecidableEq, Repr

def entry? (folder : Folder) (place : List String) : Option Entry :=
  match folder.files.find? fun (name, _) => parts name == place with
  | some (_, content) => some (.file content)
  | none =>
      if folder.files.any fun (name, _) => place.isPrefixOf (parts name) then
        some .folder
      else none

/-- The part stays where it is. -/
def stays (part : String) : Bool :=
  part == "" || part == "."

def longestName : Nat := 255

/-- What is read at a path that leads out of the folder: nothing is known there
but folders above. -/
def outside (path : List String) : Unreadable :=
  if path.all fun part => stays part || part == ".." then .isDirectory
  else .missing

def follow (folder : Folder) :
    (place : List String) → (path : List String) → Except Unreadable Bytes
  | _, [] => .error .isDirectory
  | place, part :: rest =>
      if stays part then folder.follow place rest
      else if part = ".." then
        if place.isEmpty then .error (outside rest)
        else folder.follow place.dropLast rest
      else if longestName < part.utf8ByteSize then .error .nameTooLong
      else
        match folder.entry? (place ++ [part]) with
        | none => .error .missing
        | some .folder => folder.follow (place ++ [part]) rest
        | some (.file content) =>
            if rest.isEmpty then .ok content else .error .notDirectory

def read (folder : Folder) (path : String) : Except Unreadable Bytes :=
  match path.toList with
  | [] => .error .missing
  | '/' :: _ => .error (outside (parts path))
  | _ => folder.follow [] (parts path)

end Folder
end Asm6502
