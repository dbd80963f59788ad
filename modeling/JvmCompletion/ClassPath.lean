import JvmCompletion.Class
import JvmCompletion.Table

/-!
# The class path of the runtime

The runtime can load the classes on its class path. Of some the class path holds what reflection
reports, under their binary names; of others it only knows that they are there. Both kinds are
listed, by internal name, in the order in which they were added, and a class that is added again is
listed again.
-/

namespace JvmCompletion

/-- The classes that the runtime can load. -/
structure ClassPath where
  /-- The internal names of all of them, one for each time something was added. -/
  names : List String
  /-- The classes that reflection knows, by binary name. -/
  classes : Table ReflectedClass

namespace ClassPath

/-- The class path without classes. -/
def empty : ClassPath := ⟨[], Table.empty⟩

/-- Adds a class of which only the name is known. -/
def addName (p : ClassPath) (name : String) : ClassPath :=
  { p with names := p.names ++ [ClassName.toInternal name] }

/-- Adds a class that reflection knows, in place of one with the same binary name. -/
def addClass (p : ClassPath) (c : ReflectedClass) : ClassPath where
  names := p.names ++ [ClassName.toInternal (ClassName.toBinary c.name)]
  classes := p.classes.put (ClassName.toBinary c.name) c

/-- The class that reflection knows by this binary name. -/
def load? (p : ClassPath) (binaryName : String) : Option ReflectedClass :=
  p.classes.find? binaryName

/-- A class path made of names first and classes after them. -/
def ofLists (names : List String) (classes : List ReflectedClass) : ClassPath :=
  classes.foldl addClass (names.foldl addName empty)

@[simp] theorem names_addName (p : ClassPath) (name : String) :
    (p.addName name).names = p.names ++ [ClassName.toInternal name] := rfl

@[simp] theorem names_addClass (p : ClassPath) (c : ReflectedClass) :
    (p.addClass c).names = p.names ++ [ClassName.toInternal c.name] := by
  simp [addClass, ClassName.toInternal_toBinary]

@[simp] theorem load?_addName (p : ClassPath) (name binaryName : String) :
    (p.addName name).load? binaryName = p.load? binaryName := rfl

theorem load?_addClass (p : ClassPath) (c : ReflectedClass) (binaryName : String) :
    (p.addClass c).load? binaryName =
      if binaryName = ClassName.toBinary c.name then some c else p.load? binaryName :=
  Table.find?_put ..

end ClassPath

end JvmCompletion
