import JvmCompletion.Class
import JvmCompletion.Completer
import JvmCompletion.Json

/-!
# How classes are spelled in documents

Class files and the classes of the runtime are read from JSON and TOML values, either by the names
of their fields or as lists of them. The name of a class or member is required, and so are the
descriptor of a member of a class file and the type of a field. Lists of members or parameters
default to the empty one, the result of a method to `void`. A field that is there must be of the
right shape; there is no value that stands for a missing one.

Written back as JSON, a class has all of its fields by name.
-/

namespace JvmCompletion

open Document

section Reading

variable {δ : Type} [Document δ]

/-- Reads a member of a class file. -/
def Member.ofDocument? (value : δ) : Option Member := do
  let record ← fields? ["name", "descriptor"] false value
  let name ← required? record "name" text?
  let descriptor ← required? record "descriptor" text?
  return { name, descriptor }

/-- Reads a class file. -/
def ClassFile.ofDocument? (value : δ) : Option ClassFile := do
  let record ← fields? ["name", "methods", "fields"] false value
  let name ← required? record "name" text?
  let methods ← optional? record "methods" [] (listOf? Member.ofDocument?)
  let fields ← optional? record "fields" [] (listOf? Member.ofDocument?)
  return { name, methods, fields }

/-- Reads a method of a class of the runtime. -/
def ReflectedMethod.ofDocument? (value : δ) : Option ReflectedMethod := do
  let record ← fields? ["name", "parameters", "returns"] false value
  let name ← required? record "name" text?
  let parameters ← optional? record "parameters" [] (listOf? text?)
  let returns ← optional? record "returns" "void" text?
  return { name, parameters, returns }

/-- Reads a field of a class of the runtime. -/
def ReflectedField.ofDocument? (value : δ) : Option ReflectedField := do
  let record ← fields? ["name", "type"] false value
  let name ← required? record "name" text?
  let type ← required? record "type" text?
  return { name, type }

/-- Reads a class of the runtime. -/
def ReflectedClass.ofDocument? (value : δ) : Option ReflectedClass := do
  let record ← fields? ["name", "methods", "fields"] false value
  let name ← required? record "name" text?
  let methods ← optional? record "methods" [] (listOf? ReflectedMethod.ofDocument?)
  let fields ← optional? record "fields" [] (listOf? ReflectedField.ofDocument?)
  return { name, methods, fields }

end Reading

/-- A member of a class file as JSON. -/
def Member.toJson (m : Member) : Json :=
  .object [("name", .string m.name), ("descriptor", .string m.descriptor)]

/-- A class file as JSON. -/
def ClassFile.toJson (c : ClassFile) : Json :=
  .object [("name", .string c.name), ("methods", .array (c.methods.map Member.toJson)),
    ("fields", .array (c.fields.map Member.toJson))]

/-- A method of a class of the runtime as JSON. -/
def ReflectedMethod.toJson (m : ReflectedMethod) : Json :=
  .object [("name", .string m.name), ("parameters", .array (m.parameters.map .string)),
    ("returns", .string m.returns)]

/-- A field of a class of the runtime as JSON. -/
def ReflectedField.toJson (f : ReflectedField) : Json :=
  .object [("name", .string f.name), ("type", .string f.type)]

/-- A class of the runtime as JSON. -/
def ReflectedClass.toJson (c : ReflectedClass) : Json :=
  .object [("name", .string c.name), ("methods", .array (c.methods.map ReflectedMethod.toJson)),
    ("fields", .array (c.fields.map ReflectedField.toJson))]

/-- Reads a kind of symbol: its word, or an object with the word as its only key and the value
`null`. -/
def Kind.ofJson? : Json → Option Kind
  | .string word => Kind.ofWord? word
  | .object [(word, .null)] => Kind.ofWord? word
  | _ => none

/-- A kind of symbol as JSON. -/
def Kind.toJson (k : Kind) : Json := .string k.word

end JvmCompletion
