import JvmCompletion.Proofs.ByteOrder
import JvmCompletion.Proofs.MergedNames
import JvmCompletion.Proofs.Selections

/-!
# Completing class names

What a completer suggests for a class name is the part of the merged list that goes on from the
typed text. `internalName_items_exact` says so without the list: the suggestions are the names of
either source that begin with the text and are longer, in the order of their bytes.
-/

namespace JvmCompletion.Completer

/-- Without a list in the index the suggestions for a class name are, in the order of their bytes
and each once, the names on the class path and in the active workspace that begin with the typed
text, blanks at its edges aside, and go on after it. A blank text has none. In what order and how
often the sources list their names does not matter. -/
theorem internalName_items_exact (s : Sources) (owner : Option String) (typed : String) :
    let answer := (complete s {} ⟨.internalName, owner, typed⟩).items
    (Text.trim typed = "" → answer = []) ∧
      (Text.trim typed ≠ "" →
        answer.Pairwise (fun a b => Text.bytes a < Text.bytes b) ∧
          ∀ name, name ∈ answer ↔
            s.Lists name ∧ (∃ rest, Text.trim typed ++ rest = name) ∧ name ≠ Text.trim typed) ∧
      ∀ t : Sources, (∀ name, t.Lists name ↔ s.Lists name) →
        (complete t {} ⟨.internalName, owner, typed⟩).items = answer := by
  intro answer
  have items : ∀ t : Sources, (complete t {} ⟨.internalName, owner, typed⟩).items =
      if Text.trim typed = "" then []
      else (Selection.longer (Text.trim typed)).apply t.classNames :=
    fun t => items_internalName t {} owner typed
  have hanswer : answer = _ := items s
  refine ⟨?_, ?_, ?_⟩
  · intro hblank
    rw [hanswer, if_pos hblank]
  · intro hq
    rw [hanswer, if_neg hq]
    constructor
    · exact (s.pairwise_classNames.filter _).imp Text.bytes_lt_iff.2
    · intro name
      rw [Selection.mem_apply_longer, Sources.mem_classNames]
  · intro t ht
    rw [hanswer, items t, Sources.classNames_congr ht]

/-- A name that both sources have is suggested, one that is only typed in full is not. -/
theorem internalName_items_exact_both_sources :
    let s : Sources := ⟨⟨["c/D", "a/Bc", "a/B", "a/Bc"], Table.empty⟩,
      some (Workspace.ofList "w" [⟨"a/Bd", [], []⟩, ⟨"a/Bc", [], []⟩])⟩
    Text.trim " a/B " ≠ "" ∧
      "a/Bc" ∈ (complete s {} ⟨.internalName, none, " a/B "⟩).items ∧
      "a/B" ∉ (complete s {} ⟨.internalName, none, " a/B "⟩).items := by
  intro s
  have hq : Text.trim " a/B " ≠ "" := by decide
  have hmem := ((internalName_items_exact s none " a/B ").2.1 hq).2
  refine ⟨hq, (hmem "a/Bc").2 ⟨Or.inl (by decide), ⟨"c", by decide⟩, by decide⟩, fun h => ?_⟩
  exact ((hmem "a/B").1 h).2.2 (by decide)

end JvmCompletion.Completer
