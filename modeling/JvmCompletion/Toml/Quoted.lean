import JvmCompletion.Toml.Reader
import JvmCompletion.Toml.Scalar

/-!
# Quoted strings and keys

A string in quotation marks is basic and knows escapes, one in apostrophes is literal and does not.
Either can go over several lines when its delimiter is written three times; a line end right after
the opening delimiter does not count, and up to two delimiters can stand right before the closing
one. In a basic string of several lines a backslash at the end of a line takes the blanks and line
ends that follow with it.

A part of a key is a word of letters, digits, hyphens and underscores, or a string on one line. A
key has a limited number of parts.
-/

namespace JvmCompletion.Toml.Reader

/-- Reads the code point that an escape gives in a number of hexadecimal digits. -/
def codePoint (width : Nat) : Reader Char := do
  let digits := (← get).take width
  if digits.length == width && digits.all isHexDigit then
    expect digits
    let n := numberIn 16 digits
    if n.isValidChar then return Char.ofNat n else failure
  else failure

/-- Reads the rest of an escape, after the backslash. -/
def escape : Reader Char := do
  match ← next with
  | 'b' => return '\x08'
  | 't' => return '\t'
  | 'n' => return '\n'
  | 'f' => return '\x0c'
  | 'r' => return '\r'
  | 'e' => return '\x1b'
  | '"' => return '"'
  | '\\' => return '\\'
  | 'x' => codePoint 2
  | 'u' => codePoint 4
  | 'U' => codePoint 8
  | _ => failure

/-- Reads a character that stands for itself. -/
def plain : Reader Char := do
  let c ← next
  if isPlain c then return c else failure

/-- Reads a string on one line between two delimiters. -/
def singleLine (delimiter : Char) (escapes : Bool) : Reader String := do
  expect [delimiter]
  let cs ← collect do
    let c ← plain
    if c = delimiter then return none
    else if escapes && c = '\\' then return some (← escape)
    else return some c
  return String.ofList cs

/-- Reads a line end within a string, as it is written. -/
def keptLineEnd : Reader (List Char) := do
  let cs ← get
  if ← lineEnd then return cs.take (cs.length - (← get).length) else failure

/-- Takes off the blanks and line ends that follow a backslash, if the line has nothing else after
it, and tells whether it did. -/
def continuation : Reader Bool := do
  let start ← get
  skipSpaces
  if ← lineEnd then
    let _ ← collect do
      skipSpaces
      return if ← lineEnd then some () else none
    return true
  else
    set start
    return false

/-- Reads a string over several lines between delimiters that are written three times. -/
def multiLine (delimiter : Char) (escapes : Bool) : Reader String := do
  let fence := [delimiter, delimiter, delimiter]
  expect fence
  let _ ← lineEnd
  let pieces ← collect do
    let run := (← get).takeWhile (· = delimiter)
    if run.length = 3 then
      expect fence
      return none
    else if 5 < run.length then failure
    else if run.length ≠ 0 then
      expect [delimiter]
      return some [delimiter]
    else if escapes && (← sees ['\\']) then
      expect ['\\']
      if ← continuation then return some [] else return some [← escape]
    else if (← sees ['\n']) || (← sees ['\r']) then return some (← keptLineEnd)
    else return some [← plain]
  return String.ofList pieces.flatten

/-- Reads a string on one line, if one comes next. -/
def quoted? : Reader (Option String) := do
  if ← sees ['"'] then return some (← singleLine '"' true)
  else if ← sees ['\''] then return some (← singleLine '\'' false)
  else return none

/-- Reads a string of either extent, if one comes next. -/
def string? : Reader (Option String) := do
  if ← sees ['"', '"', '"'] then return some (← multiLine '"' true)
  else if ← sees ['\'', '\'', '\''] then return some (← multiLine '\'' false)
  else quoted?

/-- Whether a character can stand in a key without quotation marks. -/
def isKeyChar (c : Char) : Bool := c.isAlphanum || c == '-' || c == '_'

/-- Reads one part of a key. -/
def keyPart : Reader String := do
  match ← quoted? with
  | some s => return s
  | none =>
    let cs ← takeAll isKeyChar
    if cs.isEmpty then failure else return String.ofList cs

/-- How many parts a key can have. -/
def maxKeyParts : Nat := 80

/-- Reads a key, whose parts are separated by dots; blanks can stand around the dots. -/
def key : Reader (List String) := do
  let first ← keyPart
  let others ← collect do
    skipSpaces
    if ← sees ['.'] then
      expect ['.']
      skipSpaces
      return some (← keyPart)
    else return none
  if maxKeyParts ≤ others.length then failure else return first :: others

end JvmCompletion.Toml.Reader
