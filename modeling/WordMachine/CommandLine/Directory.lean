import WordMachine.Input

/-! # Files

A file system opens a path as a source of bytes, or says why it cannot. A directory of
plain files is one: it knows its files by name, resolves paths against itself, and opens
directories as sources that fail when they are read.
-/
namespace WordMachine

/-- Why an operating system refuses a file. -/
inductive FileError where
  | notFound
  | notADirectory
  | isADirectory
  | nameTooLong
  deriving Repr, DecidableEq

def FileError.message : FileError → String
  | .notFound => "No such file or directory (os error 2)"
  | .notADirectory => "Not a directory (os error 20)"
  | .isADirectory => "Is a directory (os error 21)"
  | .nameTooLong => "File name too long (os error 36)"

/-- Opens a path as a source of bytes, or gives the reason why it cannot. -/
abbrev FileSystem := String → Except String Input

/-- A directory that holds files and nothing else. -/
structure Directory where
  files : List (String × List UInt8)
  deriving Repr, DecidableEq

namespace Directory

/-- The source that a directory opens as. -/
def directorySource : Input := ⟨[.failure FileError.isADirectory.message]⟩

/-- A directory of which nothing is known but that it is one. -/
def unknown : Directory := ⟨[]⟩

/-- The most bytes that the name of a file may have. -/
def maxNameBytes : Nat := 255

/-- The most bytes that a path may have. -/
def maxPathBytes : Nat := 4095

/-- Opens what a path's parts lead to, from inside a directory. -/
def openParts (directory : Directory) : List String → Except FileError Input
  | [] => .ok directorySource
  | name :: rest =>
    if name = "" ∨ name = "." then openParts directory rest
    else if name = ".." then openParts unknown rest
    else if maxNameBytes < name.utf8ByteSize then .error .nameTooLong
    else
      match directory.files.lookup name, rest with
      | none, _ => .error .notFound
      | some data, [] => .ok (.ofBytes data)
      | some _, _ => .error .notADirectory

/-- Opens a path of at most `maxPathBytes`; one that begins with a slash leads out of the
directory. -/
def resolve (directory : Directory) (path : String) : Except FileError Input :=
  if maxPathBytes < path.utf8ByteSize then .error .nameTooLong
  else
    let base := if path.startsWith "/" then unknown else directory
    base.openParts (path.splitOn "/")

/-- The file system that a directory stands for. -/
def openPath (directory : Directory) : FileSystem := fun path =>
  (directory.resolve path).mapError FileError.message

end Directory

end WordMachine
