import Scriptorium.Program.Arguments

/-!
# Files

The commands read files through a `Files`, which answers for each path.

A `FileTree` is a file system that is known from its entries, and `FileTree.files`
answers for it: a path is followed step by step from the root or the working
directory, and the first step that cannot be taken decides the answer.
-/

namespace Scriptorium

/-- What reading a path gives. -/
inductive FileContent where
  /-- The bytes of a file. -/
  | bytes (data : ByteArray)
  /-- There is nothing at the path. -/
  | missing
  /-- What is at the path may not be read. -/
  | forbidden
  /-- What is at the path cannot be read. -/
  | unreadable (reason : String)

/-- The answers for paths. -/
abbrev Files := String → FileContent

/-- The text of a file. -/
def Files.read (files : Files) (path : String) : Except CommandError String :=
  match files path with
  | .missing => .error (.missingFile path)
  | .forbidden => .error (.forbidden path)
  | .unreadable reason => .error (.unreadable path reason)
  | .bytes data =>
      match String.fromUTF8? data with
      | some text => .ok text
      | none => .error (.notText path)

/-! ## File trees -/

/-- An entry of a file system. -/
inductive FileEntry where
  /-- A file. -/
  | file (data : ByteArray)
  /-- A directory. -/
  | directory

/-- What reading a directory gives. -/
def directoryContent : FileContent := .unreadable "Is a directory (os error 21)"

/-- What reading a path through a file gives. -/
def notDirectoryContent : FileContent := .unreadable "Not a directory (os error 20)"

/-- What reading a path that is too long, or has too long a name in it, gives. -/
def longNameContent : FileContent := .unreadable "File name too long (os error 36)"

/-- The number of bytes that a name may have. -/
def maxNameBytes : Nat := 255

/-- The number of bytes that a path may have. -/
def maxPathBytes : Nat := 4095

/-- The names between the slashes of a path. -/
def pathNames (path : String) : List String := path.splitOn "/"

/-- The names in a path, but for those that stay where they are. -/
def pathSteps (path : String) : List String :=
  (pathNames path).filter fun name => name != "" && name != "."

/-- A file system with a working directory. -/
structure FileTree where
  /-- The steps from the root to the working directory. -/
  here : List String
  /-- The entries, each under its steps from the root.  The directories around an
  entry and around the working directory need no entry of their own. -/
  entries : List (List String × FileEntry)

namespace FileTree

/-- The entry at a place, given by its steps from the root. -/
def entry? (t : FileTree) (place : List String) : Option FileEntry :=
  match t.entries.find? fun entry => entry.1 == place with
  | some entry => some entry.2
  | none =>
      if place.isPrefixOf t.here || t.entries.any fun entry => place.isPrefixOf entry.1 then
        some .directory
      else none

/-- What reading the path with the given names gives, from a place on. -/
def follow (t : FileTree) (place : List String) : List String → FileContent
  | [] =>
      match t.entry? place with
      | none => .missing
      | some .directory => directoryContent
      | some (.file data) => .bytes data
  | name :: names =>
      match t.entry? place with
      | none => .missing
      | some (.file _) => notDirectoryContent
      | some .directory =>
          if name = "" ∨ name = "." then t.follow place names
          else if name = ".." then t.follow place.dropLast names
          else if name.utf8ByteSize > maxNameBytes then longNameContent
          else t.follow (place ++ [name]) names

/-- The files of a file system. -/
def files (t : FileTree) : Files := fun path =>
  if path.isEmpty then .missing
  else if path.utf8ByteSize > maxPathBytes then longNameContent
  else t.follow (if path.startsWith "/" then [] else t.here) (pathNames path)

end FileTree

end Scriptorium
