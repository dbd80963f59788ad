/-!
# Reading characters

A TOML document is read from its first character to its last. A `Reader` takes characters off the
front of what is left, or fails; there is one way to fail, since a document that is not TOML is
turned down as a whole.

Repetition goes through `collect`, which lets a reader run until it says that there is nothing
more. Every run in between takes at least one character off, so the characters that are left at the
start bound the number of runs.
-/

namespace JvmCompletion.Toml

/-- A function that takes characters off the front of a text, or fails. -/
abbrev Reader := StateT (List Char) Option

namespace Reader

/-- The next character, without taking it off; `none` at the end. -/
def peek : Reader (Option Char) := do return (← get).head?

/-- Takes the next character off. -/
def next : Reader Char := do
  match ← get with
  | c :: rest => set rest; return c
  | [] => failure

/-- Takes the given characters off. -/
def expect (chars : List Char) : Reader Unit := do
  let cs ← get
  if chars.isPrefixOf cs then set (cs.drop chars.length) else failure

/-- Whether the given characters come next, without taking them off. -/
def sees (chars : List Char) : Reader Bool := do return chars.isPrefixOf (← get)

/-- Takes all characters off up to the first that is not of a class. -/
def takeAll (isMember : Char → Bool) : Reader (List Char) := do
  let cs ← get
  set (cs.dropWhile isMember)
  return cs.takeWhile isMember

/-- Runs a reader until it yields nothing, and collects what it yields; it may yield something once
for each character of `bound`. -/
def collectWithin {α : Type} (step : Reader (Option α)) : List Char → Reader (List α)
  | [] => do if (← step).isNone then return [] else failure
  | _ :: bound => do
    match ← step with
    | some a => return a :: (← collectWithin step bound)
    | none => return []

/-- Runs a reader until it yields nothing, and collects what it yields. A reader that yields
something has to take a character off. -/
def collect {α : Type} (step : Reader (Option α)) : Reader (List α) := do
  collectWithin step (← get)

/-! ## Blanks, comments and line ends -/

/-- Whether a character is a blank within a line: a space or a tab. -/
def isSpace (c : Char) : Bool := c == ' ' || c == '\t'

/-- Whether a character can stand in comments and strings as it is: no control character but the
tab. -/
def isPlain (c : Char) : Bool := c == '\t' || (0x20 ≤ c.toNat && c.toNat != 0x7F)

/-- Takes blanks within the line off. -/
def skipSpaces : Reader Unit := do
  let _ ← takeAll isSpace

/-- Takes a comment off, if one comes next, and leaves the end of its line. -/
def skipComment : Reader Unit := do
  if ← sees ['#'] then
    let _ ← takeAll isPlain

/-- Takes a line end off, if one comes next, and tells whether it did. -/
def lineEnd : Reader Bool := do
  if ← sees ['\n'] then expect ['\n']; return true
  else if ← sees ['\r', '\n'] then expect ['\r', '\n']; return true
  else return false

/-- Takes blanks, comments and line ends off. -/
def skipLines : Reader Unit := do
  let _ ← collect do
    skipSpaces
    skipComment
    return if ← lineEnd then some () else none

/-- Takes blanks and a comment off together with the end of the line, which may be that of the
document. -/
def finishLine : Reader Unit := do
  skipSpaces
  skipComment
  if (← lineEnd) || (← peek).isNone then return () else failure

end Reader

end JvmCompletion.Toml
