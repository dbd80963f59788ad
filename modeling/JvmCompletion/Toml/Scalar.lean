import JvmCompletion.Toml.Value

/-!
# Unquoted scalars

Truth values, numbers, dates and times are written without quotation marks. `Value.ofWord?` reads
them from a word, the characters up to the next delimiter, comment or end of line; blanks can stand
in the middle of a word, as they do between a date and a time.

Digits can be grouped by single underscores. A decimal number has no needless leading zeros before
its point; a whole number can also be hexadecimal, octal or binary, but then has no sign.

A whole number is only looked at as closely as it takes to tell it from other scalars: the base may
lack its digits, and the groups after the first underscore need only begin and end with hexadecimal
digits, the last one only begin with one. What that lets through without being a number is
`Value.misspelt`.
-/

namespace JvmCompletion.Toml

/-- Whether the characters are digits that single underscores may group. -/
def isGrouped (isDigit : Char → Bool) : List Char → Bool
  | [] => false
  | c :: rest => isDigit c && others rest
where
  /-- The same for what follows a digit. -/
  others : List Char → Bool
    | [] => true
    | '_' :: c :: rest => isDigit c && others rest
    | c :: rest => isDigit c && others rest

/-- The value of a digit, letters counting from ten. -/
def digitValue (c : Char) : Nat :=
  if c.isDigit then c.toNat - '0'.toNat
  else if 'a' ≤ c ∧ c ≤ 'f' then c.toNat - 'a'.toNat + 10
  else c.toNat - 'A'.toNat + 10

/-- The number that digits of a base spell, underscores left out. -/
def numberIn (base : Nat) (digits : List Char) : Nat :=
  (digits.filter (· != '_')).foldl (fun n c => n * base + digitValue c) 0

/-- Whether a character is a hexadecimal digit. -/
def isHexDigit (c : Char) : Bool :=
  c.isDigit || ('a' ≤ c && c ≤ 'f') || ('A' ≤ c && c ≤ 'F')

/-- Whether the characters start with a zero that is not all there is. -/
def hasNeedlessZero (digits : List Char) : Bool :=
  digits.head? == some '0' && digits.length != 1

/-- Takes a sign off: whether it is a minus, and the rest. -/
def splitSign : List Char → Bool × List Char
  | '+' :: rest => (false, rest)
  | '-' :: rest => (true, rest)
  | rest => (false, rest)

/-- A number with a sign. -/
def signed (negative : Bool) (n : Nat) : Int := if negative then -n else n

/-- Whether a character can stand in a group of digits. -/
def isDigitOrGroup (c : Char) : Bool := c.isDigit || c == '_'

/-- Reads an exponent, the letter `e` included; no characters at all count as exponent zero. -/
def exponent? : List Char → Option Int
  | [] => some 0
  | e :: rest =>
    let (negative, digits) := splitSign rest
    if (e == 'e' || e == 'E') && isGrouped Char.isDigit digits then
      some (signed negative (numberIn 10 digits))
    else none

/-- Reads a number with a point or an exponent. -/
def fractional? (negative : Bool) (digits : List Char) : Option Value :=
  let whole := digits.takeWhile isDigitOrGroup
  if !isGrouped Char.isDigit whole || hasNeedlessZero whole then none
  else match digits.dropWhile isDigitOrGroup with
    | '.' :: afterPoint =>
      let fraction := afterPoint.takeWhile isDigitOrGroup
      if !isGrouped Char.isDigit fraction then none
      else do
        let exponent ← exponent? (afterPoint.dropWhile isDigitOrGroup)
        let places := (fraction.filter (· != '_')).length
        return .decimal (signed negative (numberIn 10 (whole ++ fraction))) (exponent - places)
    | rest => do
      let exponent ← exponent? rest
      return .decimal (signed negative (numberIn 10 whole)) exponent

/-- Whether the groups that follow others begin with hexadecimal digits, and all but the last end
with one as well. -/
def groupsHold : List (List Char) → Bool
  | [] => true
  | [last] => last.head?.any isHexDigit
  | group :: rest =>
    group.head?.any isHexDigit && group.getLast?.any isHexDigit && groupsHold rest

/-- Whether the groups of a whole number hold together, the first of them being the digits before
the first underscore. -/
def isWhole (digits : List Char) : Bool :=
  match digits.splitOn '_' with
  | [] => false
  | first :: others =>
    !first.isEmpty && first.all Char.isDigit && !hasNeedlessZero digits && groupsHold others

/-- Reads a decimal whole number. -/
def whole? (negative : Bool) (digits : List Char) : Option Value :=
  if !isWhole digits || digits.contains ' ' then none
  else if digits.all isDigitOrGroup then some (.integer (signed negative (numberIn 10 digits)))
  else some .misspelt

/-- Reads a decimal number, which is a whole one unless a point or the letter of an exponent is
found in it. -/
def decimal? (word : List Char) : Option Value :=
  let (negative, digits) := splitSign word
  if digits.any fun c => c == '.' || c == 'e' || c == 'E' then fractional? negative digits
  else whole? negative digits

/-- Reads the digits of a whole number in a base other than ten. -/
def based? (base : Nat) (isDigit : Char → Bool) (digits : List Char) : Option Value :=
  if digits.isEmpty then some .misspelt
  else if isGrouped isDigit digits then some (.integer (numberIn base digits))
  else none

/-! ## Dates and times -/

/-- Reads a number of exactly `width` digits between two bounds. -/
def bounded? (width low high : Nat) (cs : List Char) : Option (Nat × List Char) :=
  let digits := cs.take width
  let n := numberIn 10 digits
  if digits.length == width && digits.all Char.isDigit && low ≤ n && n ≤ high then
    some (n, cs.drop width)
  else none

/-- Reads over a separator. -/
def separator? (isSeparator : Char → Bool) : List Char → Option (List Char)
  | c :: rest => if isSeparator c then some rest else none
  | [] => none

/-- The number of days of a month in the Gregorian calendar. -/
def daysInMonth (year month : Nat) : Nat :=
  if month = 2 then
    if year % 4 = 0 ∧ (year % 100 ≠ 0 ∨ year % 400 = 0) then 29 else 28
  else if month = 4 ∨ month = 6 ∨ month = 9 ∨ month = 11 then 30
  else 31

/-- Reads over a date, `1979-05-27`. -/
def date? (cs : List Char) : Option (List Char) := do
  let (year, cs) ← bounded? 4 0 9999 cs
  let cs ← separator? (· == '-') cs
  let (month, cs) ← bounded? 2 1 12 cs
  let cs ← separator? (· == '-') cs
  let (_, cs) ← bounded? 2 1 (daysInMonth year month) cs
  return cs

/-- Reads over a fraction of a second, if one follows. -/
def fraction? : List Char → Option (List Char)
  | '.' :: rest =>
    if rest.takeWhile Char.isDigit = [] then none else some (rest.dropWhile Char.isDigit)
  | cs => some cs

/-- Reads over a time, `07:32:00.5`; the seconds may be missing. -/
def time? (cs : List Char) : Option (List Char) := do
  let (_, cs) ← bounded? 2 0 23 cs
  let cs ← separator? (· == ':') cs
  let (_, cs) ← bounded? 2 0 59 cs
  match cs with
  | ':' :: rest => do
    let (_, cs) ← bounded? 2 0 60 rest
    fraction? cs
  | _ => return cs

/-- Reads over an offset from universal time, if one follows. -/
def offset? : List Char → Option (List Char)
  | [] => some []
  | c :: rest =>
    if c == 'Z' || c == 'z' then some rest
    else if c == '+' || c == '-' then do
      let (_, cs) ← bounded? 2 0 23 rest
      let cs ← separator? (· == ':') cs
      let (_, cs) ← bounded? 2 0 59 cs
      return cs
    else none

/-- Whether a character separates a date from a time. -/
def separatesTime (c : Char) : Bool := c == 'T' || c == 't' || c == ' '

/-- Whether the characters are a date, a time, or a date with a time and perhaps an offset. -/
def isMoment (word : List Char) : Bool :=
  match date? word with
  | some [] => true
  | some cs => ((separator? separatesTime cs).bind time?).bind offset? == some []
  | none => time? word == some []

/-! ## All of them -/

/-- Reads a scalar that is written without quotation marks. -/
def Value.ofWord? (word : List Char) : Option Value :=
  match word with
  | ['t', 'r', 'u', 'e'] => some (.boolean true)
  | ['f', 'a', 'l', 's', 'e'] => some (.boolean false)
  | '0' :: 'x' :: digits => based? 16 isHexDigit digits
  | '0' :: 'o' :: digits => based? 8 (fun c => '0' ≤ c && c ≤ '7') digits
  | '0' :: 'b' :: digits => based? 2 (fun c => c == '0' || c == '1') digits
  | _ =>
    let (_, unsigned) := splitSign word
    if unsigned == ['i', 'n', 'f'] || unsigned == ['n', 'a', 'n'] then some .special
    else if isMoment word then some .moment
    else decimal? word

end JvmCompletion.Toml
