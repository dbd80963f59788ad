/-!
# Reading records from documents

Classes are read from JSON and from TOML documents, in which a record such as a class or a member
can be spelled in two ways: by its fields' names, or as a list of its fields in order. This module
says what the two formats have in common and how a record is taken apart in either spelling.

`Document.fields?` finds the fields of a record, and `required?` and `optional?` read one of them.
-/

namespace JvmCompletion

/-- The values of a document format. -/
class Document (δ : Type) where
  /-- The text that a value is, if it is one. -/
  text? : δ → Option String
  /-- The elements of a value, if it is a list. -/
  list? : δ → Option (List δ)
  /-- The entries of a value, if it has named ones. -/
  entries? : δ → Option (List (String × δ))
  /-- Whether the value can be passed over when nobody asks for it. -/
  skippable : δ → Bool
  /-- Whether a record spelled as a list may have more elements than fields. -/
  surplus : Bool

namespace Document

variable {δ : Type} [Document δ] {α : Type}

/-- The fields of a record that a value spells, by name. As a list the fields come in the order of
`known`, and those at the end may be missing. By name they come in any order, and entries that are
no fields are passed over, unless the record is `strict`. -/
def fields? (known : List String) (strict : Bool) (value : δ) : Option (List (String × δ)) :=
  match list? value with
  | some elements =>
    if surplus δ || elements.length ≤ known.length then some (known.zip elements) else none
  | none =>
    match entries? value with
    | some entries =>
      if entries.all fun e => known.contains e.1 || (!strict && skippable e.2) then
        some (entries.filter fun e => known.contains e.1)
      else none
    | none => none

/-- Reads a field that has to be there. -/
def required? (fields : List (String × δ)) (name : String) (read : δ → Option α) : Option α :=
  (fields.lookup name).bind read

/-- Reads a field that stands for `absent` when it is not there. -/
def optional? (fields : List (String × δ)) (name : String) (absent : α) (read : δ → Option α) :
    Option α :=
  match fields.lookup name with
  | some value => read value
  | none => some absent

/-- Reads a list, every element of it. -/
def listOf? (read : δ → Option α) (value : δ) : Option (List α) :=
  (list? value).bind fun elements => elements.mapM read

end Document

end JvmCompletion
