import JvmCompletion.Document

/-!
# TOML values

`Toml.Value` is the type of TOML values. Tables and arrays remember how they came about, because
that decides whether a later line of the document may add to them.

A number can be written with any number of digits, and a whole number can be misspelt. One that
nobody asks for may be passed over only if it could have been represented: a whole number in 128
bits, with or without a sign, any other in double precision. What is not even passed over, such as
the surplus elements of a record, may be anything.
-/

namespace JvmCompletion.Toml

/-- How a table came about. -/
inductive TableOrigin where
  /-- It is the document itself, or a header opened it. -/
  | header
  /-- A header opened a table below it. -/
  | implied
  /-- A dotted key put something below it. -/
  | dotted
  /-- It was written in braces. -/
  | braces
  deriving DecidableEq, Repr

/-- How an array came about. -/
inductive ArrayOrigin where
  /-- It was written in brackets. -/
  | brackets
  /-- Headers in double brackets opened its elements, which are tables. -/
  | headers
  deriving DecidableEq, Repr

/-- A TOML value. -/
inductive Value where
  /-- A string. -/
  | text (s : String)
  /-- A whole number. -/
  | integer (n : Int)
  /-- What was let through as a whole number, but spells none. -/
  | misspelt
  /-- The number `mantissa * 10 ^ exponent`. -/
  | decimal (mantissa exponent : Int)
  /-- An infinity, or what is not a number. -/
  | special
  /-- A truth value. -/
  | boolean (b : Bool)
  /-- A date, a time, or both. -/
  | moment
  /-- An array. -/
  | array (origin : ArrayOrigin) (elements : List Value)
  /-- A table, by its keys. -/
  | table (origin : TableOrigin) (entries : List (String × Value))

/-- Whether a whole number fits into 128 bits, with or without a sign. -/
def integerFits (n : Int) : Bool := -(Nat.pow 2 127 : Int) ≤ n && n < (Nat.pow 2 128 : Int)

/-- The least number that double precision rounds to infinity: half a unit above the largest finite
one. -/
def doubleLimit : Nat := Nat.pow 2 1024 - Nat.pow 2 970

/-- Whether `mantissa * 10 ^ exponent` is finite in double precision. The number of its digits
before the point decides unless it is near that of the limit, which has 309. -/
def decimalFits (mantissa exponent : Int) : Bool :=
  let m := mantissa.natAbs
  let digits : Int := (Nat.toDigits 10 m).length
  if m = 0 ∨ digits + exponent < 309 then true
  else if 309 < digits + exponent then false
  else if 0 ≤ exponent then m * Nat.pow 10 exponent.toNat < doubleLimit
  else m < doubleLimit * Nat.pow 10 (-exponent).toNat

mutual

/-- Whether every number in a value could have been represented. -/
def Value.fits : Value → Bool
  | .integer n => integerFits n
  | .misspelt => false
  | .decimal mantissa exponent => decimalFits mantissa exponent
  | .array _ elements => Value.allFit elements
  | .table _ entries => Value.entriesFit entries
  | _ => true

/-- Whether every number in the values of a list could have been represented. -/
def Value.allFit : List Value → Bool
  | [] => true
  | v :: rest => v.fits && Value.allFit rest

/-- Whether every number in the values of a table could have been represented. -/
def Value.entriesFit : List (String × Value) → Bool
  | [] => true
  | (_, v) :: rest => v.fits && Value.entriesFit rest

end

/-- What nobody asks for is passed over if its numbers fit, and a record spelled as an array may
have surplus elements. -/
instance : Document Value where
  text?
    | .text s => some s
    | _ => none
  list?
    | .array _ elements => some elements
    | _ => none
  entries?
    | .table _ entries => some entries
    | _ => none
  skippable := Value.fits
  surplus := true

end JvmCompletion.Toml
