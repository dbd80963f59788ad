import JvmCompletion.ClassName
import JvmCompletion.Text.Blank

/-!
# Type descriptors

Class files spell types as descriptors: `I`, `Ljava/lang/String;`, `[[J`. Reflection spells them
the way source code does (`int`, `java.lang.String`, `long[][]`), except that it may give an array
in binary form (`[[J`, `[Ljava.lang.String;`). Members of both kinds of class are compared by their
descriptors, so whatever reflection says is brought into that form here.

`JvmType` is the type itself, `JvmType.descriptor` its descriptor and `JvmType.ofSource` reads its
source form; `Descriptor.ofTypeName` also knows the binary form of arrays.
-/

namespace JvmCompletion

/-- The types that have a keyword of their own; `void` is one of them, as a result type. -/
inductive Primitive where
  | boolean | byte | char | short | int | long | float | double | void
  deriving DecidableEq, Repr

namespace Primitive

/-- Every primitive. -/
def all : List Primitive :=
  [.boolean, .byte, .char, .short, .int, .long, .float, .double, .void]

/-- The keyword of source code. -/
def keyword : Primitive → String
  | .boolean => "boolean"
  | .byte => "byte"
  | .char => "char"
  | .short => "short"
  | .int => "int"
  | .long => "long"
  | .float => "float"
  | .double => "double"
  | .void => "void"

/-- The letter of descriptors. -/
def letter : Primitive → Char
  | .boolean => 'Z'
  | .byte => 'B'
  | .char => 'C'
  | .short => 'S'
  | .int => 'I'
  | .long => 'J'
  | .float => 'F'
  | .double => 'D'
  | .void => 'V'

/-- The primitive with this keyword, if there is one. -/
def ofKeyword? (word : String) : Option Primitive := all.find? fun p => p.keyword == word

@[simp] theorem ofKeyword?_keyword (p : Primitive) : ofKeyword? p.keyword = some p := by
  cases p <;> decide

end Primitive

/-- A type: a primitive, a class or interface by name, or an array. -/
inductive JvmType where
  /-- A primitive type, or `void`. -/
  | primitive (p : Primitive)
  /-- A class or interface, by its name. -/
  | reference (name : String)
  /-- An array of the element type. -/
  | array (element : JvmType)
  deriving DecidableEq, Repr

namespace JvmType

/-- The descriptor of a type, as a list of characters. -/
def descriptorChars : JvmType → List Char
  | .primitive p => [p.letter]
  | .reference name => 'L' :: (ClassName.toInternal name).toList ++ [';']
  | .array element => '[' :: element.descriptorChars

/-- The descriptor of a type. -/
def descriptor (t : JvmType) : String := String.ofList t.descriptorChars

@[simp] theorem toList_descriptor (t : JvmType) : t.descriptor.toList = t.descriptorChars :=
  String.toList_ofList

/-- The type that a word without brackets names: a keyword its primitive, any other word a class. -/
def ofWord (word : String) : JvmType :=
  match Primitive.ofKeyword? word with
  | some p => .primitive p
  | none => .reference word

/-- Reads the source form of a type from its last character backwards: blanks are passed over, a
pair of brackets makes an array, and what is left is the word that names the element. -/
def ofReversed : List Char → JvmType
  | [] => ofWord ""
  | c :: rest =>
    if Text.isBlank c then ofReversed rest
    else if c = ']' then
      match rest with
      | '[' :: element => .array (ofReversed element)
      | _ => ofWord (String.ofList (c :: rest).reverse)
    else ofWord (String.ofList (c :: rest).reverse)

/-- Reads the source form of a type: a word followed by any number of `[]`, with blanks allowed
before each pair of brackets and at the end. -/
def ofSource (text : String) : JvmType := ofReversed text.toList.reverse

end JvmType

namespace Descriptor

/-- Whether a type name, blanks at its edges aside, is an array in binary form: it starts with a
bracket. -/
def isBinaryArray (trimmed : String) : Bool := trimmed.toList.head? = some '['

/-- The descriptor of a type that reflection names. The binary form of an array is its descriptor
but for the separators of class names; any other name is in source form. -/
def ofTypeName (name : String) : String :=
  let trimmed := Text.trim name
  if isBinaryArray trimmed then ClassName.toInternal trimmed
  else (JvmType.ofSource trimmed).descriptor

/-- The descriptor of a method: the descriptors of its parameters in parentheses, followed by that
of its result. -/
def ofMethod (parameters : List String) (returns : String) : String :=
  "(" ++ String.join (parameters.map ofTypeName) ++ ")" ++ ofTypeName returns

end Descriptor

end JvmCompletion
