import JvmCompletion.Completer
import JvmCompletion.Proofs.Trimming

/-!
# What requests select

The suggestions for class names and descriptors are selected from the list of the index. Here it is
said which candidates a selection keeps, and which selection a request makes; the list itself, and
whether it is built for the request, is left open.
-/

namespace JvmCompletion

theorem Selection.mem_apply_longer {typed name : String} {candidates : List String} :
    name ∈ (Selection.longer typed).apply candidates ↔
      name ∈ candidates ∧ (∃ rest, typed ++ rest = name) ∧ name ≠ typed := by
  simp only [Selection.apply, List.mem_filter, Bool.and_eq_true, bne_iff_ne,
    Text.begins_iff_append]

theorem Selection.mem_apply_closing {d : OpenDescriptor} {item : String}
    {candidates : List String} :
    item ∈ (Selection.closing d).apply candidates ↔
      ∃ name ∈ candidates, Text.begins d.name name = true ∧ d.close name = item := by
  simp only [Selection.apply, List.mem_map, List.mem_filter, and_assoc]

/-- What becomes of a candidate that is kept. -/
def Selection.shown : Selection → String → String
  | .closing d, candidate => d.close candidate
  | .longer _, candidate => candidate
  | .signature _, candidate => candidate

/-- Whatever is selected comes from a candidate. -/
theorem Selection.exists_of_mem_apply {selection : Selection} {candidates : List String}
    {item : String} (h : item ∈ selection.apply candidates) :
    ∃ c ∈ candidates, item = selection.shown c := by
  cases selection with
  | longer typed => exact ⟨item, (mem_apply_longer.1 h).1, rfl⟩
  | closing d =>
    obtain ⟨c, hc, -, rfl⟩ := mem_apply_closing.1 h
    exact ⟨c, hc, rfl⟩
  | signature typed =>
    have hmem := Names.mem_sorted.1 h
    exact ⟨item, (List.mem_filter.1 hmem).1, rfl⟩

namespace Completer

theorem items_internalName (s : Sources) (index : NameIndex) (owner : Option String)
    (typed : String) :
    (complete s index ⟨.internalName, owner, typed⟩).items =
      if Text.trim typed = "" then []
      else (Selection.longer (Text.trim typed)).apply (index.names s) := by
  by_cases h : Text.isBlankText typed = true
  · simp [complete, longerNames?, h, Text.trim_eq_empty_iff, completeNames]
  · simp [complete, longerNames?, h, Text.trim_eq_empty_iff, completeNames]

theorem items_descriptor (s : Sources) (index : NameIndex) (owner : Option String)
    (typed : String) :
    (complete s index ⟨.descriptor, owner, typed⟩).items =
      match OpenDescriptor.read? typed with
      | none => []
      | some d => (Selection.closing d).apply (index.names s) := by
  simp only [complete, closedDescriptors?]
  cases OpenDescriptor.read? typed <;> rfl

end Completer

end JvmCompletion
