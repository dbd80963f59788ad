import JvmCompletion.Text.Blank

/-!
# Reference descriptors that are still open

While a reference descriptor such as `[[Ljava/util/List;` is being typed, its end is missing. What
is there already falls into the markers, which say that a reference or an array of references
follows, and the beginning of a class name, which is what completion works on.

The markers are whatever run of `[` and `L` the text starts with, in any order; a name that itself
starts with `L` loses that letter to them. A `;` closes a descriptor, and a closed one cannot be
completed; only as the very first character of the name does it count as part of it.
-/

namespace JvmCompletion

/-- A reference descriptor as far as it has been typed. -/
structure OpenDescriptor where
  /-- The brackets and letters `L` that come before the name. -/
  markers : String
  /-- The class name as far as it has been typed. -/
  name : String
  deriving DecidableEq, Repr

namespace OpenDescriptor

/-- Whether a character can stand among the markers. -/
def isMarker (c : Char) : Bool := c = 'L' || c = '['

/-- Reads an open descriptor from what was typed, blanks at the edges aside. There is none if no
`L` stands among the markers, if no name has been started, or if a `;` has closed it. -/
def read? (typed : String) : Option OpenDescriptor :=
  let text := (Text.trim typed).toList
  let markers := text.takeWhile isMarker
  let name := text.dropWhile isMarker
  if 'L' ∈ markers ∧ name ≠ [] ∧ ';' ∉ name.tail then
    some ⟨String.ofList markers, String.ofList name⟩
  else none

/-- Closes the descriptor over a whole class name, in place of the name typed so far. -/
def close (d : OpenDescriptor) (className : String) : String := d.markers ++ className ++ ";"

end OpenDescriptor

end JvmCompletion
