import JvmCompletion.Document

/-!
# JSON

`Json` is the type of JSON values, as a document format and with the texts that the command line
prints: a list of suggestions becomes an array of strings on one line.

In a string the quotation mark, the backslash and the control characters below the space are
escaped, five of the latter by a letter and the others by their code point in four hexadecimal
digits. Everything else stands for itself.
-/

namespace JvmCompletion

/-- A JSON value. -/
inductive Json where
  /-- The value `null`. -/
  | null
  /-- A truth value. -/
  | bool (b : Bool)
  /-- The number `mantissa * 10 ^ (-exponent)`. -/
  | number (mantissa : Int) (exponent : Nat)
  /-- A string. -/
  | string (s : String)
  /-- An array. -/
  | array (elements : List Json)
  /-- An object, by its keys. -/
  | object (entries : List (String × Json))
  deriving Inhabited

namespace Json

/-- Any JSON value can be passed over, and a record spelled as an array has no surplus elements. -/
instance : Document Json where
  text?
    | .string s => some s
    | _ => none
  list?
    | .array elements => some elements
    | _ => none
  entries?
    | .object entries => some entries
    | _ => none
  skippable _ := true
  surplus := false

/-- The digit of a number below sixteen, in lower case. -/
def hexDigit (n : Nat) : Char := Char.ofNat (if n < 10 then 0x30 + n else 0x57 + n)

/-- The characters by which a string has the character `c`. -/
def escape (c : Char) : List Char :=
  if c = '"' then ['\\', '"']
  else if c = '\\' then ['\\', '\\']
  else if c = '\x08' then ['\\', 'b']
  else if c = '\t' then ['\\', 't']
  else if c = '\n' then ['\\', 'n']
  else if c = '\x0c' then ['\\', 'f']
  else if c = '\r' then ['\\', 'r']
  else if c.toNat < 0x20 then
    ['\\', 'u', '0', '0', hexDigit (c.toNat / 16), hexDigit (c.toNat % 16)]
  else [c]

/-- A text as a JSON string. -/
def quote (s : String) : String := String.ofList ('"' :: s.toList.flatMap escape ++ ['"'])

/-- A list of texts as a JSON array without spaces. -/
def quoteList (items : List String) : String :=
  "[" ++ String.intercalate "," (items.map quote) ++ "]"

end Json

end JvmCompletion
