import JvmCompletion.Json
import JvmCompletion.Toml.Reader
import JvmCompletion.Toml.Scalar
import Mathlib.Data.List.Basic

/-!
# Reading JSON arrays of strings

The lists that are written as JSON are meant for programs that read JSON. `JsonReader.strings?` is
what such a program does with the line it gets: it reads an array of strings with blanks wherever
these can be, with every kind of escape, and with code points outside of the basic plane as pairs of
surrogates. `strings?_quoteList` says that it gets back every list that `Json.quoteList` writes.
-/

namespace JvmCompletion

open Toml (Reader)
open Toml.Reader

namespace JsonReader

/-- Whether a character can stand between the parts of a value. -/
def isBlank (c : Char) : Bool := c == ' ' || c == '\t' || c == '\n' || c == '\r'

/-- Takes blanks off. -/
def skipBlanks : Reader Unit := do
  let _ ← takeAll isBlank

/-- Reads four hexadecimal digits. -/
def codeUnit : Reader Nat := do
  let digits := (← get).take 4
  if digits.length == 4 && digits.all Toml.isHexDigit then
    expect digits
    return Toml.numberIn 16 digits
  else failure

/-- Reads the rest of an escape that gives a code point, in one code unit or in two that are
surrogates. -/
def codePoint : Reader Char := do
  let unit ← codeUnit
  if 0xD800 ≤ unit && unit < 0xDC00 then
    expect ['\\', 'u']
    let low ← codeUnit
    if 0xDC00 ≤ low && low < 0xE000 then
      return Char.ofNat (0x10000 + (unit - 0xD800) * 0x400 + (low - 0xDC00))
    else failure
  else if unit.isValidChar then return Char.ofNat unit
  else failure

/-- Reads the rest of an escape, after the backslash. -/
def unescape : Reader Char := do
  match ← next with
  | '"' => return '"'
  | '\\' => return '\\'
  | '/' => return '/'
  | 'b' => return '\x08'
  | 'f' => return '\x0c'
  | 'n' => return '\n'
  | 'r' => return '\r'
  | 't' => return '\t'
  | 'u' => codePoint
  | _ => failure

/-- Reads a character of a string, or the quotation mark at its end. -/
def character? : Reader (Option Char) := do
  let c ← next
  if c = '"' then return none
  else if c = '\\' then return some (← unescape)
  else if c.toNat < 0x20 then failure
  else return some c

/-- Reads a string. -/
def string : Reader String := do
  expect ['"']
  return String.ofList (← collect character?)

/-- Reads a further element of an array with the comma before it, if one comes next. -/
def further? : Reader (Option String) := do
  skipBlanks
  if ← sees [','] then
    expect [',']
    skipBlanks
    return some (← string)
  else return none

/-- Reads an array of strings. -/
def array : Reader (List String) := do
  expect ['[']
  skipBlanks
  if ← sees [']'] then
    expect [']']
    return []
  else
    let first ← string
    let others ← collect further?
    expect [']']
    return first :: others

/-- Reads a text that is an array of strings. -/
def strings? (text : String) : Option (List String) := do
  let (items, rest) ← (do skipBlanks; let items ← array; skipBlanks; return items : Reader _).run
    text.toList
  if rest.isEmpty then some items else none

end JsonReader

/-! ## Repetition -/

section Repetition

variable {α : Type} {step : Reader (Option α)} {render : α → List Char} {closing rest : List Char}

/-- A reader that reads the rendering of each thing reads as many of them as there are, up to where
it yields nothing. -/
theorem run_collectWithin (hstep : ∀ a tail, step.run (render a ++ tail) = some (some a, tail))
    (hclosing : step.run closing = some (none, rest)) (items : List α) {bound : List Char}
    (hbound : items.length ≤ bound.length) :
    (collectWithin step bound).run (items.flatMap render ++ closing) = some (items, rest) := by
  induction items generalizing bound with
  | nil =>
    cases bound with
    | nil => simp [collectWithin, hclosing]
    | cons => simp [collectWithin, hclosing]
  | cons a items ih =>
    cases bound with
    | nil => simp at hbound
    | cons _ bound =>
      have hrest := ih (Nat.le_of_succ_le_succ hbound)
      simp [collectWithin, List.append_assoc, hstep, hrest]

theorem run_collect (hstep : ∀ a tail, step.run (render a ++ tail) = some (some a, tail))
    (hrender : ∀ a, render a ≠ []) (hclosing : step.run closing = some (none, rest))
    (items : List α) :
    (collect step).run (items.flatMap render ++ closing) = some (items, rest) := by
  have hlength : items.length ≤ (items.flatMap render ++ closing).length := by
    induction items with
    | nil => simp
    | cons a items ih =>
      have hpos := List.length_pos_of_ne_nil (hrender a)
      simp only [List.flatMap_cons, List.append_assoc, List.length_append, List.length_cons] at *
      omega
  simpa [collect] using run_collectWithin hstep hclosing items hlength

end Repetition

/-! ## Characters -/

theorem isHexDigit_hexDigit : ∀ n < 16, Toml.isHexDigit (Json.hexDigit n) := by decide

theorem digitValue_hexDigit : ∀ n < 16, Toml.digitValue (Json.hexDigit n) = n := by decide

theorem hexDigit_ne_underscore : ∀ n < 16, Json.hexDigit n ≠ '_' := by decide

theorem hexDigit_ne_newline : ∀ n < 16, Json.hexDigit n ≠ '\n' := by decide

theorem run_expect_append (chars tail : List Char) :
    (expect chars).run (chars ++ tail) = some ((), tail) := by
  simp [expect]

namespace JsonReader

theorem run_codeUnit {digits : List Char} (hlength : digits.length = 4)
    (hdigits : digits.all Toml.isHexDigit) (tail : List Char) :
    codeUnit.run (digits ++ tail) = some (Toml.numberIn 16 digits, tail) := by
  have htake : (digits ++ tail).take 4 = digits := by
    rw [← hlength]
    exact List.take_left
  simp only [codeUnit, StateT.run_bind, StateT.run_get, Option.bind_eq_bind, Option.pure_def,
    Option.bind_some, htake, hlength, hdigits, BEq.rfl, Bool.and_self, if_true,
    run_expect_append, StateT.run_pure]

theorem numberIn_hexDigits {n : Nat} (hn : n < 0x100) :
    Toml.numberIn 16 ['0', '0', Json.hexDigit (n / 16), Json.hexDigit (n % 16)] = n := by
  have hhigh : n / 16 < 16 := by omega
  have hlow : n % 16 < 16 := by omega
  have hzero : Toml.digitValue '0' = 0 := rfl
  simp [Toml.numberIn, hzero, hexDigit_ne_underscore _ hhigh, hexDigit_ne_underscore _ hlow,
    digitValue_hexDigit _ hhigh, digitValue_hexDigit _ hlow]
  omega

/-- A control character is read back from the four digits of its code point. -/
theorem run_codePoint_hexDigits {c : Char} (hc : c.toNat < 0x20) (tail : List Char) :
    codePoint.run
        (['0', '0', Json.hexDigit (c.toNat / 16), Json.hexDigit (c.toNat % 16)] ++ tail) =
      some (c, tail) := by
  have hdigits :
      ['0', '0', Json.hexDigit (c.toNat / 16), Json.hexDigit (c.toNat % 16)].all
        Toml.isHexDigit := by
    have hzero : Toml.isHexDigit '0' := by decide
    have hhigh := isHexDigit_hexDigit (c.toNat / 16) (by omega)
    have hlow := isHexDigit_hexDigit (c.toNat % 16) (by omega)
    simp [hzero, hhigh, hlow]
  have hunit := run_codeUnit rfl hdigits tail
  rw [numberIn_hexDigits (by omega)] at hunit
  have hlower : ¬ 0xD800 ≤ c.toNat := by omega
  have hvalid : c.toNat.isValidChar := .inl (by omega)
  simp only [codePoint, StateT.run_bind, hunit, Option.bind_eq_bind, Option.bind_some,
    hlower, decide_false, Bool.false_and, Bool.false_eq_true, if_false, hvalid, if_true,
    StateT.run_pure, Char.ofNat_toNat, Option.pure_def]

/-- A character of a string is read back from what is written for it. -/
theorem run_character?_escape (c : Char) (tail : List Char) :
    character?.run (Json.escape c ++ tail) = some (some c, tail) := by
  unfold Json.escape
  split_ifs with hquote hbackslash hbackspace htab hnewline hfeed hreturn hcontrol
  · subst c; rfl
  · subst c; rfl
  · subst c; rfl
  · subst c; rfl
  · subst c; rfl
  · subst c; rfl
  · subst c; rfl
  · have hpoint := run_codePoint_hexDigits hcontrol tail
    simpa [character?, unescape, next] using hpoint
  · simp [character?, next, hquote, hbackslash, hcontrol]

/-! ## Strings and arrays -/

theorem run_expect_cons (c : Char) (tail : List Char) :
    (expect [c]).run (c :: tail) = some ((), tail) :=
  run_expect_append [c] tail

theorem run_sees_cons (c d : Char) (tail : List Char) :
    (sees [c]).run (d :: tail) = some (c == d, d :: tail) := by
  simp [sees, List.isPrefixOf]

theorem run_skipBlanks {c : Char} (hc : isBlank c = false) (tail : List Char) :
    skipBlanks.run (c :: tail) = some ((), c :: tail) := by
  simp [skipBlanks, takeAll, hc]

theorem toList_quote (s : String) :
    (Json.quote s).toList = '"' :: (s.toList.flatMap Json.escape ++ ['"']) := by
  rw [Json.quote, String.toList_ofList]
  rfl

theorem escape_ne_nil (c : Char) : Json.escape c ≠ [] := by
  unfold Json.escape
  split_ifs <;> simp

theorem run_string_quote (s : String) (tail : List Char) :
    string.run ((Json.quote s).toList ++ tail) = some (s, tail) := by
  have hcharacters : (collect character?).run (s.toList.flatMap Json.escape ++ '"' :: tail) =
      some (s.toList, tail) :=
    run_collect run_character?_escape escape_ne_nil rfl s.toList
  simp [string, toList_quote, run_expect_cons, hcharacters]

theorem run_further?_quote (s : String) (tail : List Char) :
    further?.run (',' :: (Json.quote s).toList ++ tail) = some (some s, tail) := by
  have hstring := run_string_quote s tail
  have hcomma : isBlank ',' = false := rfl
  have hquote : isBlank '"' = false := rfl
  rw [toList_quote] at hstring ⊢
  simp only [List.cons_append, List.append_assoc, List.nil_append] at hstring ⊢
  simp [further?, run_skipBlanks hcomma, run_sees_cons, run_expect_cons, run_skipBlanks hquote,
    hstring]

theorem run_further?_closing (tail : List Char) :
    further?.run (']' :: tail) = some (none, ']' :: tail) := by
  have hclosing : isBlank ']' = false := rfl
  simp [further?, run_skipBlanks hclosing, run_sees_cons]

/-- A list is written with a comma before each of its elements but the first. -/
theorem toList_quoteList_cons (first : String) (others : List String) :
    (Json.quoteList (first :: others)).toList =
      '[' :: ((Json.quote first).toList ++
        (others.flatMap (fun s => ',' :: (Json.quote s).toList) ++ [']'])) := by
  have hintercalate : (String.intercalate "," ((first :: others).map Json.quote)).toList =
      (Json.quote first).toList ++ others.flatMap fun s => ',' :: (Json.quote s).toList := by
    induction others generalizing first with
    | nil => simp [String.intercalate_singleton]
    | cons second others ih =>
      rw [List.map_cons, List.map_cons, String.intercalate_cons_cons, String.toList_append,
        ← List.map_cons, ih second]
      simp
  rw [Json.quoteList, String.toList_append, String.toList_append, hintercalate]
  simp

theorem run_array_quoteList (items : List String) (tail : List Char) :
    array.run ((Json.quoteList items).toList ++ tail) = some (items, tail) := by
  cases items with
  | nil =>
    have hclosing : isBlank ']' = false := rfl
    have htext : (Json.quoteList []).toList = ['[', ']'] := rfl
    simp [array, htext, run_expect_cons, run_skipBlanks hclosing, run_sees_cons]
  | cons first others =>
    have hothers := run_collect run_further?_quote (by simp) (run_further?_closing tail) others
    have hfirst := run_string_quote first
      (others.flatMap (fun s => ',' :: (Json.quote s).toList) ++ ']' :: tail)
    have hquote : isBlank '"' = false := rfl
    rw [toList_quoteList_cons]
    rw [toList_quote] at hfirst ⊢
    simp only [List.cons_append, List.append_assoc, List.nil_append] at hfirst ⊢
    simp [array, run_expect_cons, run_skipBlanks hquote, run_sees_cons, hfirst, hothers]

/-- Whatever list is written, the same list is read back. -/
theorem strings?_quoteList (items : List String) :
    strings? (Json.quoteList items) = some items := by
  have harray := run_array_quoteList items []
  have hopening : ∃ tail, (Json.quoteList items).toList = '[' :: tail := by
    rw [Json.quoteList, String.toList_append, String.toList_append]
    exact ⟨_, rfl⟩
  obtain ⟨tail, htail⟩ := hopening
  have hblank : isBlank '[' = false := rfl
  rw [List.append_nil, htail] at harray
  simp [strings?, htail, run_skipBlanks hblank, harray]
  rfl

/-- Other spellings of a list are read as well. -/
example : strings? " [ \"\\u0041\", \"\\ud83d\\ude00\\/\" ]" = some ["A", "😀/"] := by decide +kernel

theorem newline_not_mem_escape (c : Char) : '\n' ∉ Json.escape c := by
  unfold Json.escape
  split_ifs with _ _ _ _ hnewline _ _ hcontrol
  · decide
  · decide
  · decide
  · decide
  · decide
  · decide
  · decide
  · have hhigh := hexDigit_ne_newline (c.toNat / 16) (by omega)
    have hlow := hexDigit_ne_newline (c.toNat % 16) (by omega)
    simp [hhigh.symm, hlow.symm]
  · simpa using fun h => hnewline h.symm

/-- The text of a list is one line, whatever its elements are. -/
theorem newline_not_mem_quoteList (items : List String) :
    '\n' ∉ (Json.quoteList items).toList := by
  have hquote : ∀ s, '\n' ∉ (Json.quote s).toList := by
    intro s
    simp [toList_quote, newline_not_mem_escape]
  cases items with
  | nil => decide
  | cons first others => simp [toList_quoteList_cons, hquote]

end JsonReader

end JvmCompletion
