import JvmCompletion.FileTree

/-!
# Failing to load

Completion itself never fails; loading the settings or a snapshot can. A `LoadError` says what went
wrong: the file could not be read, it is not a document of the right form, or a class in it has a
name that classes cannot have.
-/

namespace JvmCompletion

/-- In what way a text is not the document it should be. -/
inductive Malformation where
  /-- It is not TOML. -/
  | notToml
  /-- It has keys that do not belong there, lacks some, or has values of the wrong type. -/
  | wrongShape
  deriving DecidableEq, Repr

/-- The words for a malformation. -/
def Malformation.message : Malformation → String
  | .notToml => "not a TOML document"
  | .wrongShape => "unexpected keys or values"

/-- The parts of a snapshot that hold classes. -/
inductive SnapshotPart where
  | runtime | workspace
  deriving DecidableEq, Repr

/-- The word for a part of a snapshot. -/
def SnapshotPart.word : SnapshotPart → String
  | .runtime => "runtime"
  | .workspace => "workspace"

/-- Why a name cannot be the name of a class. -/
inductive NameFault where
  /-- It is blank. -/
  | blank
  /-- It should be an internal name, but has a dot in it. -/
  | notInternal (name : String)
  deriving DecidableEq, Repr

/-- The words for a fault of a name. -/
def NameFault.message : NameFault → String
  | .blank => "class name is blank"
  | .notInternal name => "`" ++ name ++ "` is not an internal name"

/-- Why settings or a snapshot could not be loaded. -/
inductive LoadError where
  /-- The file could not be read. -/
  | unreadable (path : String) (fault : ReadFault)
  /-- The text of the file is not the document it should be. -/
  | malformed (path : String) (how : Malformation)
  /-- A class has a name that it cannot have. -/
  | invalidClass (part : SnapshotPart) (fault : NameFault)
  deriving DecidableEq, Repr

namespace LoadError

/-- The words for a malformed document up to the way in which it is. -/
def malformedHead (path : String) : String := "failed to parse " ++ path ++ ": "

/-- The words for an error. -/
def message : LoadError → String
  | .unreadable path fault => "failed to read " ++ path ++ ": " ++ fault.message
  | .malformed path how => malformedHead path ++ how.message
  | .invalidClass part fault => "invalid class entry in " ++ part.word ++ ": " ++ fault.message

end LoadError

end JvmCompletion
