/-!
# Files

Settings and snapshots are read from files. `ReadFault` lists what can go wrong on the way to the
text of a file, and `FileTree.readText` says when it does, for a tree of files and directories that
is given as a value. Nothing is ever written, so a tree does not change.

A path is followed from the root, or from the working directory if it does not start with a slash.
Every part of it but the last has to lead to a directory, and so has the last if a slash follows it.
-/

namespace JvmCompletion

/-- Why the text of a file could not be read. -/
inductive ReadFault where
  /-- There is nothing at the path. -/
  | notFound
  /-- Something on the path that should be a directory is none. -/
  | notADirectory
  /-- There is a directory at the path. -/
  | isADirectory
  /-- The path or a part of it is too long. -/
  | nameTooLong
  /-- The path has a character that no path can have. -/
  | nulInPath
  /-- The contents are not UTF-8. -/
  | notUtf8
  /-- Anything else, in the words of the system. -/
  | other (reason : String)
  deriving DecidableEq, Repr

/-- The words for a fault. -/
def ReadFault.message : ReadFault → String
  | .notFound => "No such file or directory (os error 2)"
  | .notADirectory => "Not a directory (os error 20)"
  | .isADirectory => "Is a directory (os error 21)"
  | .nameTooLong => "File name too long (os error 36)"
  | .nulInPath => "file name contained an unexpected NUL byte"
  | .notUtf8 => "stream did not contain valid UTF-8"
  | .other reason => reason

/-- The text that the contents of a file are. -/
def decodeText (contents : ByteArray) : Except ReadFault String :=
  match String.fromUTF8? contents with
  | some text => .ok text
  | none => .error .notUtf8

/-- What is found at a place in a tree of files. -/
inductive FileTree.Node where
  /-- A file with its contents. -/
  | file (contents : ByteArray)
  /-- A directory. -/
  | directory

/-- A tree of files and directories. -/
structure FileTree where
  /-- What there is beside the root, by the names that lead to it from there. -/
  nodes : List (List String × FileTree.Node)
  /-- The names that lead to the working directory. -/
  workingDirectory : List String := []

namespace FileTree

/-- The length in bytes from which on a path is too long. -/
def pathLimit : Nat := 4096

/-- The length in bytes up to which a part of a path is not too long. -/
def partLimit : Nat := 255

/-- What is found at a place. The root is always a directory. -/
def node? (t : FileTree) (place : List String) : Option Node :=
  if place = [] then some .directory else t.nodes.lookup place

/-- Follows the parts of a path from a place that is known to hold a node. The empty part and `.`
stay, `..` goes up, and the root is above itself. -/
def follow (t : FileTree) (place : List String) (node : Node) :
    List String → Except ReadFault Node
  | [] => .ok node
  | part :: rest =>
    match node with
    | .file _ => .error .notADirectory
    | .directory =>
      if part = "" ∨ part = "." then follow t place node rest
      else if part = ".." then follow t place.dropLast .directory rest
      else if partLimit < part.utf8ByteSize then .error .nameTooLong
      else match t.node? (place ++ [part]) with
        | some found => follow t (place ++ [part]) found rest
        | none => .error .notFound

/-- The parts of a path, between its slashes. -/
def parts (path : String) : List String :=
  path.toList.splitOn '/' |>.map String.ofList

/-- What a path leads to. -/
def find (t : FileTree) (path : String) : Except ReadFault Node :=
  if '\x00' ∈ path.toList then .error .nulInPath
  else if path = "" then .error .notFound
  else if pathLimit ≤ path.utf8ByteSize then .error .nameTooLong
  else match parts path with
    | "" :: rest => t.follow [] .directory rest
    | all => t.follow t.workingDirectory .directory all

/-- The text of the file that a path leads to. -/
def readText (t : FileTree) (path : String) : Except ReadFault String := do
  match ← t.find path with
  | .file contents => decodeText contents
  | .directory => .error .isADirectory

end FileTree

end JvmCompletion
