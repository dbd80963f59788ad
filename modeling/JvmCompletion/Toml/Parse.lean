import JvmCompletion.Toml.Quoted
import JvmCompletion.Toml.Tree

/-!
# Reading TOML documents

`Toml.parse?` reads a whole document, in version 1.1 of TOML: tables in braces can go over several
lines, also between a key and its value, and may end with a comma. Arrays and tables in braces can
be nested up to a fixed depth.

The document is a sequence of lines. A line with a header changes where the keys of the following
lines go; a line with a key adds a value there; the other lines are blank. Values can take more than
one line.
-/

namespace JvmCompletion.Toml

namespace Reader

/-- Whether a character ends a word. -/
def endsWord (c : Char) : Bool :=
  c == ' ' || c == '\t' || c == '\n' || c == '\r' || c == '#' || c == ',' || c == '=' ||
  c == '[' || c == ']' || c == '\x7b' || c == '\x7d'

/-- Whether a word goes on with this character after blanks. -/
def resumesWord (c : Char) : Bool := !(endsWord c || c == '.' || c == '"' || c == '\'')

/-- Reads a scalar without quotation marks, blanks in the middle of it included. -/
def word : Reader Value := do
  let first ← takeAll fun c => !endsWord c
  let others ← collect do
    let blanks := (← get).takeWhile isSpace
    let resumes := ((← get).dropWhile isSpace).head?.any resumesWord
    if !blanks.isEmpty && resumes then
      skipSpaces
      return some (blanks ++ (← takeAll fun c => !endsWord c))
    else return none
  (Value.ofWord? (first ++ others.flatten) : Option Value)

/-- Reads a scalar. -/
def scalar : Reader Value := do
  match ← string? with
  | some s => return .text s
  | none => word

/-- Reads items up to a closing character, with commas between them and perhaps after the last. -/
def items {α : Type} (closing : Char) (item : Reader α) : Reader (List α) := collect do
  skipLines
  if ← sees [closing] then
    expect [closing]
    return none
  else
    let a ← item
    skipLines
    if ← sees [','] then expect [',']
    else if !(← sees [closing]) then failure
    return some a

/-- Reads a key with its value; `skip` takes off what can stand around the equals sign. -/
def assignment (skip : Reader Unit) (value : Reader Value) :
    Reader (List String × String × Value) := do
  let parts ← key
  skip
  expect ['=']
  skip
  let v ← value
  match parts.getLast? with
  | some last => return (parts.dropLast, last, v)
  | none => failure

/-- Reads a value in which arrays and tables are nested no deeper than `depth`. -/
def value : Nat → Reader Value
  | 0 => scalar
  | depth + 1 => do
    if ← sees ['['] then
      expect ['[']
      return .array .brackets (← items ']' (value depth))
    else if ← sees ['\x7b'] then
      expect ['\x7b']
      let assignments ← items '\x7d' (assignment skipLines (value depth))
      let entries ← (assignments.foldlM
        (fun entries a => assign a.1 a.2.1 a.2.2 .header entries) [] : Option Entries)
      return .table .braces entries
    else scalar

end Reader

/-- How deep arrays and tables in braces can be nested. -/
def maxDepth : Nat := 80

/-- What one line of a document says. -/
inductive Statement where
  /-- Nothing. -/
  | blank
  /-- The following keys go into a table. -/
  | table (path : List String) (key : String)
  /-- The following keys go into a new element of an array of tables. -/
  | element (path : List String) (key : String)
  /-- A key has a value. -/
  | assignment (path : List String) (key : String) (value : Value)

namespace Reader

/-- Reads the key of a header between its brackets. -/
def header (opening closing : List Char) : Reader (List String × String) := do
  expect opening
  skipSpaces
  let parts ← key
  skipSpaces
  expect closing
  match parts.getLast? with
  | some last => return (parts.dropLast, last)
  | none => failure

/-- Reads a statement, to the end of its line. -/
def statement : Reader Statement := do
  skipSpaces
  let s ← do
    if ← sees ['[', '['] then
      let (path, key) ← header ['[', '['] [']', ']']
      pure (Statement.element path key)
    else if ← sees ['['] then
      let (path, key) ← header ['['] [']']
      pure (Statement.table path key)
    else match ← peek with
      | none | some '#' | some '\n' | some '\r' => pure Statement.blank
      | some _ =>
        let (path, key, v) ← assignment skipSpaces (value maxDepth)
        pure (Statement.assignment path key v)
  finishLine
  return s

/-- Reads all statements of a document. -/
def statements : Reader (List Statement) := collect do
  if (← peek).isNone then return none else return some (← statement)

end Reader

/-- A document as far as it has been put together. -/
structure Draft where
  /-- The entries of the document. -/
  entries : Entries := []
  /-- The path of the table that the last header opened. -/
  current : List String := []

/-- Adds a statement to a document. -/
def Draft.add (d : Draft) : Statement → Option Draft
  | .blank => some d
  | .table path key => do
    let entries ← openTable path key .header d.entries
    return { entries, current := path ++ [key] }
  | .element path key => do
    let entries ← openElement path key .header d.entries
    return { entries, current := path ++ [key] }
  | .assignment path key value => do
    let entries ← along false d.current (assign path key value) .header d.entries
    return { d with entries }

/-- Reads a document: the table that it is, if it is TOML. A byte order mark at its start does not
count. -/
def parse? (text : String) : Option Value := do
  let cs := match text.toList with
    | '\uFEFF' :: rest => rest
    | cs => cs
  let (statements, _) ← Reader.statements.run cs
  let draft ← statements.foldlM Draft.add {}
  return .table .header draft.entries

end JvmCompletion.Toml
