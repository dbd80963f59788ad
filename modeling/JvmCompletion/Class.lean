import JvmCompletion.Descriptor

/-!
# Classes and their members

A class reaches completion in one of two shapes: as a class file whose bytecode has been parsed, or
as what reflection reports about a class that the runtime has loaded. A class file holds its
members with their descriptors; reflection names their types, from which the descriptors are made.

Either shape lists the signatures of its members in the order of declaration: a method is its name
directly followed by its descriptor, `hashCode()I`, a field is its name, a space and its
descriptor, `value [C`.
-/

namespace JvmCompletion

/-- The two kinds of member. -/
inductive MemberKind where
  | method | field
  deriving DecidableEq, Repr

/-- A member as class files have it. -/
structure Member where
  /-- The name. -/
  name : String
  /-- The descriptor of the type of a field, or of a method as a whole. -/
  descriptor : String
  deriving DecidableEq, Repr

/-- The signature of a member, by which completion offers it. -/
def Member.signature (kind : MemberKind) (m : Member) : String :=
  match kind with
  | .method => m.name ++ m.descriptor
  | .field => m.name ++ " " ++ m.descriptor

/-- A class parsed from bytecode. -/
structure ClassFile where
  /-- The name, meant to be in internal form. -/
  name : String
  /-- The methods in the order of declaration. -/
  methods : List Member := []
  /-- The fields in the order of declaration. -/
  fields : List Member := []
  deriving DecidableEq, Repr

/-- The members of one kind. -/
def ClassFile.members (c : ClassFile) : MemberKind → List Member
  | .method => c.methods
  | .field => c.fields

/-- The signatures of the members of one kind. -/
def ClassFile.signatures (c : ClassFile) (kind : MemberKind) : List String :=
  (c.members kind).map (Member.signature kind)

/-- A method as reflection reports it. -/
structure ReflectedMethod where
  /-- The name. -/
  name : String
  /-- The names of the parameters' types. -/
  parameters : List String := []
  /-- The name of the result's type. -/
  returns : String := "void"
  deriving DecidableEq, Repr

/-- The method as a class file would have it. -/
def ReflectedMethod.toMember (m : ReflectedMethod) : Member :=
  ⟨m.name, Descriptor.ofMethod m.parameters m.returns⟩

/-- A field as reflection reports it. -/
structure ReflectedField where
  /-- The name. -/
  name : String
  /-- The name of the type. -/
  type : String
  deriving DecidableEq, Repr

/-- The field as a class file would have it. -/
def ReflectedField.toMember (f : ReflectedField) : Member :=
  ⟨f.name, Descriptor.ofTypeName f.type⟩

/-- A class as reflection reports it. -/
structure ReflectedClass where
  /-- The name, meant to be the binary one. -/
  name : String
  /-- The methods in the order of declaration. -/
  methods : List ReflectedMethod := []
  /-- The fields in the order of declaration. -/
  fields : List ReflectedField := []
  deriving DecidableEq, Repr

/-- The members of one kind, with their descriptors. -/
def ReflectedClass.members (c : ReflectedClass) : MemberKind → List Member
  | .method => c.methods.map ReflectedMethod.toMember
  | .field => c.fields.map ReflectedField.toMember

/-- The signatures of the members of one kind. -/
def ReflectedClass.signatures (c : ReflectedClass) (kind : MemberKind) : List String :=
  (c.members kind).map (Member.signature kind)

end JvmCompletion
