import JvmCompletion.Class.Spelling
import JvmCompletion.LoadError
import JvmCompletion.Toml.Parse

/-!
# Snapshots

A snapshot is a TOML document that describes both sources of symbols, so that completion works
without an editor:

    [runtime]
    names = ["java/util/List", "java/util/Map"]

    [[runtime.classes]]
    name = "java.lang.Object"
    methods = [{ name = "hashCode", returns = "int" }]

    [[workspace.classes]]
    name = "com/example/App"
    fields = [{ name = "count", descriptor = "I" }]

No workspace is active if the document has none. Other keys than these are refused, except within a
class or member. A snapshot in which a class has a name that it cannot have is refused as well.
-/

namespace JvmCompletion

open Document

/-- What a snapshot says about the runtime. -/
structure RuntimePart where
  /-- The names of classes of which nothing else is known. -/
  names : List String := []
  /-- The classes that reflection knows. -/
  classes : List ReflectedClass := []
  deriving DecidableEq, Repr

/-- What a snapshot says about the active workspace. -/
structure WorkspacePart where
  /-- The classes in the workspace. -/
  classes : List ClassFile := []
  deriving DecidableEq, Repr

/-- The contents of a snapshot. -/
structure Snapshot where
  /-- The runtime. -/
  runtime : RuntimePart := {}
  /-- The active workspace, if there is one. -/
  workspace : Option WorkspacePart := none
  deriving DecidableEq, Repr

section Reading

variable {δ : Type} [Document δ]

/-- Reads what a document says about the runtime. -/
def RuntimePart.ofDocument? (value : δ) : Option RuntimePart := do
  let record ← fields? ["names", "classes"] true value
  let names ← optional? record "names" [] (listOf? text?)
  let classes ← optional? record "classes" [] (listOf? ReflectedClass.ofDocument?)
  return { names, classes }

/-- Reads what a document says about the active workspace. -/
def WorkspacePart.ofDocument? (value : δ) : Option WorkspacePart := do
  let record ← fields? ["classes"] true value
  let classes ← optional? record "classes" [] (listOf? ClassFile.ofDocument?)
  return { classes }

/-- Reads a snapshot. -/
def Snapshot.ofDocument? (value : δ) : Option Snapshot := do
  let record ← fields? ["runtime", "workspace"] true value
  let runtime ← optional? record "runtime" {} RuntimePart.ofDocument?
  let workspace ← optional? record "workspace" none fun v => (WorkspacePart.ofDocument? v).map some
  return { runtime, workspace }

end Reading

namespace Snapshot

/-- What is wrong with the name of a class of the workspace, if anything. -/
def internalNameFault? (name : String) : Option NameFault :=
  if Text.isBlankText name then some .blank
  else if '.' ∈ name.toList then some (.notInternal name)
  else none

/-- Checks the names of all classes. The names of the runtime must not be blank, those of the
workspace must be internal names as well. The runtime comes first, and of the workspace the first
name that is wrong counts. -/
def validate (s : Snapshot) : Except LoadError Unit :=
  if (s.runtime.names ++ s.runtime.classes.map (·.name)).any Text.isBlankText then
    .error (.invalidClass .runtime .blank)
  else
    let names := (s.workspace.getD {}).classes.map (·.name)
    match names.findSome? internalNameFault? with
    | some fault => .error (.invalidClass .workspace fault)
    | none => .ok ()

/-- Reads a snapshot from the text of a document; `origin` is the path that errors name. -/
def parse (text origin : String) : Except LoadError Snapshot :=
  match Toml.parse? text with
  | none => .error (.malformed origin .notToml)
  | some value =>
    match Snapshot.ofDocument? value with
    | none => .error (.malformed origin .wrongShape)
    | some s => s.validate.map fun _ => s

/-- The class path that a snapshot describes. Blanks at the edges of a name of which nothing else
is known do not count. -/
def classPath (s : Snapshot) : ClassPath :=
  ClassPath.ofLists (s.runtime.names.map Text.trim) s.runtime.classes

/-- The identity of the workspace that a snapshot describes. -/
def workspaceId : WorkspaceId := "snapshot"

/-- The workspace that a snapshot describes, if it does. -/
def activeWorkspace (s : Snapshot) : Option Workspace :=
  s.workspace.map fun w => Workspace.ofList workspaceId w.classes

/-- The sources that a snapshot describes. -/
def sources (s : Snapshot) : Sources := ⟨s.classPath, s.activeWorkspace⟩

/-- The suggestions for requests made one after another of a completer over a snapshot. -/
def completeAll (s : Snapshot) (requests : List Request) : List (List String) :=
  Completer.completeAll s.sources {} requests

end Snapshot

end JvmCompletion
