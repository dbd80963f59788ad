import JvmCompletion.Class
import JvmCompletion.Table

/-!
# Workspaces

A workspace is a set of class files that are being edited. It has an identity of its own, which it
keeps while its classes change, and by which two workspaces differ even when they hold the same
classes. A class is found by exactly the name it has, and putting a class replaces the one of that
name as a whole.
-/

namespace JvmCompletion

/-- The identity of a workspace. -/
abbrev WorkspaceId := String

/-- A set of class files. -/
structure Workspace where
  /-- The identity. -/
  id : WorkspaceId
  /-- The classes by name. -/
  classes : Table ClassFile

namespace Workspace

/-- A workspace without classes. -/
def empty (id : WorkspaceId) : Workspace := ⟨id, Table.empty⟩

/-- Puts a class into the workspace, in place of the one of the same name. -/
def putClass (w : Workspace) (c : ClassFile) : Workspace :=
  { w with classes := w.classes.put c.name c }

/-- A workspace into which the classes of a list were put one after another. -/
def ofList (id : WorkspaceId) (classes : List ClassFile) : Workspace :=
  classes.foldl putClass (empty id)

/-- The names of the classes, each once. -/
def residentNames (w : Workspace) : List String := w.classes.keys

/-- The number of classes. -/
def size (w : Workspace) : Nat := w.classes.size

/-- Whether there are no classes. -/
def isEmpty (w : Workspace) : Bool := w.classes.isEmpty

/-- The class of exactly this name. -/
def class? (w : Workspace) (name : String) : Option ClassFile := w.classes.find? name

@[simp] theorem id_putClass (w : Workspace) (c : ClassFile) : (w.putClass c).id = w.id := rfl

theorem class?_putClass (w : Workspace) (c : ClassFile) (name : String) :
    (w.putClass c).class? name = if name = c.name then some c else w.class? name :=
  Table.find?_put ..

theorem isSome_class?_iff {w : Workspace} {name : String} :
    (w.class? name).isSome ↔ name ∈ w.residentNames :=
  Table.isSome_find?_iff

end Workspace

end JvmCompletion
