/-!
# What a text begins with

Every completion keeps the candidates that begin with what was typed. The test compares characters,
so upper and lower case differ and no form of normalisation takes place.
-/

namespace JvmCompletion.Text

/-- Whether `s` begins with the characters of `opening`. -/
def begins (opening s : String) : Bool := opening.toList.isPrefixOf s.toList

theorem begins_iff {opening s : String} :
    begins opening s = true ↔ ∃ rest, opening.toList ++ rest = s.toList := by
  rw [begins, List.isPrefixOf_iff_prefix]
  rfl

/-- A text begins with itself. -/
@[simp] theorem begins_self (s : String) : begins s s = true :=
  begins_iff.2 ⟨[], List.append_nil _⟩

/-- What begins with a text begins with whatever that one begins with. -/
theorem begins_trans {first second third : String} (h : begins first second = true)
    (h' : begins second third = true) : begins first third = true := by
  rw [begins, List.isPrefixOf_iff_prefix] at *
  exact h.trans h'

/-- Texts that begin with each other are one text. -/
theorem eq_of_begins {first second : String} (h : begins first second = true)
    (h' : begins second first = true) : first = second := by
  rw [begins, List.isPrefixOf_iff_prefix] at *
  exact String.toList_inj.1 (h.eq_of_length_le h'.length_le)

end JvmCompletion.Text
