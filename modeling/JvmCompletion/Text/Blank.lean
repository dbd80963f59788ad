/-!
# White space

A character is blank when it has the Unicode property `White_Space`. Class names, type names and
whatever an editor sends are read with the blanks at their edges taken off; this module holds the
table of the property and the three ways of taking blanks off.

The functions are defined on `String` through `List Char`, and each has a lemma that says what it
does to the list of characters.
-/

namespace JvmCompletion.Text

/-- The ranges of code points that have the property `White_Space`, both ends included. -/
def blankRanges : List (Nat × Nat) :=
  [(0x0009, 0x000D), (0x0020, 0x0020), (0x0085, 0x0085), (0x00A0, 0x00A0), (0x1680, 0x1680),
   (0x2000, 0x200A), (0x2028, 0x2029), (0x202F, 0x202F), (0x205F, 0x205F), (0x3000, 0x3000)]

/-- Whether a character is white space. -/
def isBlank (c : Char) : Bool :=
  blankRanges.any fun r => r.1 ≤ c.toNat && c.toNat ≤ r.2

/-- The characters from the first one on that is not blank. -/
def dropBlanks (cs : List Char) : List Char := cs.dropWhile isBlank

/-- The characters up to the last one that is not blank. -/
def dropBlanksRight (cs : List Char) : List Char := (dropBlanks cs.reverse).reverse

/-- A text without the blanks it starts with. -/
def trimStart (s : String) : String := String.ofList (dropBlanks s.toList)

/-- A text without the blanks it starts with and those it ends with. -/
def trim (s : String) : String := String.ofList (dropBlanksRight (dropBlanks s.toList))

/-- A text is blank when nothing is left of it after trimming: every character is white space. -/
def isBlankText (s : String) : Bool := s.toList.all isBlank

@[simp] theorem toList_trimStart (s : String) : (trimStart s).toList = dropBlanks s.toList :=
  String.toList_ofList

@[simp] theorem toList_trim (s : String) :
    (trim s).toList = dropBlanksRight (dropBlanks s.toList) :=
  String.toList_ofList

/-- Dropping blanks leaves a text that does not start with one. -/
theorem isBlank_head_dropBlanks {cs : List Char} {c : Char} {rest : List Char}
    (h : dropBlanks cs = c :: rest) : isBlank c = false := by
  induction cs with
  | nil => cases h
  | cons d cs ih =>
    unfold dropBlanks at h ih
    rw [List.dropWhile_cons] at h
    split at h
    · exact ih h
    · next hd => cases h; simpa using hd

end JvmCompletion.Text
