import JvmCompletion.Descriptor
import JvmCompletion.Proofs.Trimming

/-!
# How types are spelled

Reflection may spell one type in many ways: in source form, with blanks around it and before each
pair of brackets, or, if it is an array, in binary form. `JvmType.Spells` says which texts spell a
type, without regard to how they are read, and `ofTypeName_of_spells` that all of them are read as
the descriptor of the type.
-/

namespace JvmCompletion

/-- A name that source code can give to a class: it is not empty, has no blanks at its edges, does
not start with a bracket or end with a pair of them, and is not the keyword of a primitive. -/
structure ClassName.IsWord (name : String) : Prop where
  ne_empty : name ≠ ""
  trimmed : Text.trim name = name
  no_bracket : name.toList.head? ≠ some '['
  no_brackets : ¬ ['[', ']'] <:+ name.toList
  no_keyword : ∀ p : Primitive, p.keyword ≠ name

namespace JvmType

/-- The text is the source form of the type: its word, followed by a pair of brackets for each
dimension, with any blanks before each pair. -/
inductive SourceForm : JvmType → List Char → Prop where
  | keyword (p : Primitive) : SourceForm (.primitive p) p.keyword.toList
  | name {name : String} : ClassName.IsWord name → SourceForm (.reference name) name.toList
  | brackets {element : JvmType} {text blanks : List Char} : SourceForm element text →
    (∀ c ∈ blanks, Text.isBlank c = true) →
      SourceForm (.array element) (text ++ (blanks ++ ['[', ']']))

/-- The binary form of an array: a bracket for each dimension and then the letter of a primitive or
the name of a class between `L` and `;`. -/
def binaryForm : JvmType → List Char
  | .primitive p => [p.letter]
  | .reference name => 'L' :: name.toList ++ [';']
  | .array element => '[' :: element.binaryForm

/-- The text spells the type, in source form or as an array in binary form, with any blanks around
it. -/
inductive Spells : JvmType → String → Prop where
  | source {t : JvmType} {text : String} {body before after : List Char} : t.SourceForm body →
    (∀ c ∈ before, Text.isBlank c = true) → (∀ c ∈ after, Text.isBlank c = true) →
      text.toList = before ++ (body ++ after) → Spells t text
  | binary {element : JvmType} {text : String} {before after : List Char} :
    (∀ c ∈ before, Text.isBlank c = true) → (∀ c ∈ after, Text.isBlank c = true) →
      text.toList = before ++ ((array element).binaryForm ++ after) →
      Spells (.array element) text

/-! ## Reading backwards -/

theorem ofReversed_blanks {blanks : List Char} (h : ∀ c ∈ blanks, Text.isBlank c = true)
    (rest : List Char) : ofReversed (blanks ++ rest) = ofReversed rest := by
  induction blanks with
  | nil => rfl
  | cons c blanks ih =>
    obtain ⟨hc, hblanks⟩ := List.forall_mem_cons.1 h
    rw [List.cons_append, ofReversed.eq_def]
    dsimp only
    rw [if_pos hc]
    exact ih hblanks

theorem ofReversed_brackets (element : List Char) :
    ofReversed (']' :: '[' :: element) = .array (ofReversed element) := by
  rw [ofReversed, if_neg (by decide), if_pos rfl]

theorem exists_reverse_of_dropBlanksRight {cs : List Char} (hne : cs ≠ [])
    (h : Text.dropBlanksRight cs = cs) :
    ∃ c rest, cs.reverse = c :: rest ∧ Text.isBlank c = false := by
  obtain ⟨c, rest, hrev⟩ := List.exists_cons_of_ne_nil (mt List.reverse_eq_nil_iff.1 hne)
  refine ⟨c, rest, hrev, ?_⟩
  have hdrop : Text.dropBlanks cs.reverse = cs.reverse := by
    rw [Text.dropBlanksRight] at h
    rw [← List.reverse_inj, h, List.reverse_reverse]
  rw [hrev] at hdrop
  exact Text.isBlank_head_dropBlanks hdrop

/-- What ends neither with a blank nor with a pair of brackets is read as a word. -/
theorem ofReversed_word {word : String} (hne : word ≠ "") (htrim : Text.trim word = word)
    (hbrackets : ¬ ['[', ']'] <:+ word.toList) :
    ofReversed word.toList.reverse = ofWord word := by
  obtain ⟨-, hend⟩ := Text.trim_eq_self_iff.1 htrim
  obtain ⟨c, rest, hrev, hc⟩ :=
    exists_reverse_of_dropBlanksRight (mt String.toList_eq_nil_iff.1 hne) hend
  have hword : String.ofList (c :: rest).reverse = word := by
    rw [← hrev, List.reverse_reverse, String.ofList_toList]
  rw [hrev, ofReversed.eq_def]
  dsimp only
  rw [if_neg (by rw [hc]; decide), hword]
  -- a closing bracket is the end of a word too, unless its opening one is right before it
  split
  · rename_i hclosing
    split
    · rename_i element
      refine absurd ⟨element.reverse, ?_⟩ hbrackets
      rw [← List.reverse_inj, hrev, hclosing]
      simp
    · rfl
  · rfl

theorem ofWord_keyword (p : Primitive) : ofWord p.keyword = .primitive p := by
  rw [ofWord, Primitive.ofKeyword?_keyword]

theorem ofWord_of_isWord {name : String} (h : ClassName.IsWord name) :
    ofWord name = .reference name := by
  have hnone : Primitive.ofKeyword? name = none := by
    rw [Primitive.ofKeyword?, List.find?_eq_none]
    intro p _ hp
    exact h.no_keyword p (by simpa using hp)
  rw [ofWord, hnone]

theorem ofReversed_of_sourceForm {t : JvmType} {text : List Char} (h : t.SourceForm text) :
    ofReversed text.reverse = t := by
  induction h with
  | keyword p =>
    have hword : p.keyword ≠ "" ∧ Text.trim p.keyword = p.keyword ∧
        ¬ ['[', ']'] <:+ p.keyword.toList := by
      cases p <;> decide
    rw [ofReversed_word hword.1 hword.2.1 hword.2.2, ofWord_keyword]
  | name hname =>
    rw [ofReversed_word hname.ne_empty hname.trimmed hname.no_brackets, ofWord_of_isWord hname]
  | @brackets element text blanks _ hblanks ih =>
    -- backwards the last pair of brackets comes first, then the blanks before it
    have hrev : (text ++ (blanks ++ ['[', ']'])).reverse =
        ']' :: '[' :: (blanks.reverse ++ text.reverse) := by
      simp
    have hblanks' : ∀ c ∈ blanks.reverse, Text.isBlank c = true := by
      intro c hc
      exact hblanks c (List.mem_reverse.1 hc)
    rw [hrev, ofReversed_brackets, ofReversed_blanks hblanks', ih]

/-! ## Edges -/

/-- The source form of a type starts with a character that is neither a blank nor a bracket, and
does not end with a blank. -/
theorem edges_of_sourceForm {t : JvmType} {text : List Char} (h : t.SourceForm text) :
    (∃ first rest, text = first :: rest ∧ Text.isBlank first = false ∧ first ≠ '[') ∧
      Text.dropBlanksRight text = text := by
  induction h with
  | keyword p =>
    refine ⟨?_, by cases p <;> decide⟩
    cases p <;> exact ⟨_, _, rfl, by decide, by decide⟩
  | @name name hname =>
    obtain ⟨hstart, hend⟩ := Text.trim_eq_self_iff.1 hname.trimmed
    obtain ⟨first, rest, hchars⟩ := List.exists_cons_of_ne_nil
      (mt String.toList_eq_nil_iff.1 hname.ne_empty)
    have hbracket := hname.no_bracket
    rw [hchars] at hstart hbracket
    refine ⟨⟨first, rest, hchars, Text.isBlank_head_dropBlanks hstart, ?_⟩, hend⟩
    rintro rfl
    exact hbracket rfl
  | @brackets element text blanks _ _ ih =>
    obtain ⟨⟨first, rest, rfl, hfirst⟩, -⟩ := ih
    refine ⟨⟨first, _, rfl, hfirst⟩, ?_⟩
    have hlast : first :: rest ++ (blanks ++ ['[', ']']) =
        (first :: rest ++ (blanks ++ ['['])) ++ [']'] := by
      simp
    rw [hlast]
    exact Text.dropBlanksRight_concat (by decide) _

theorem trim_sourceForm {t : JvmType} {text : List Char} (h : t.SourceForm text) :
    Text.trim (String.ofList text) = String.ofList text := by
  obtain ⟨⟨first, rest, rfl, hfirst, -⟩, hend⟩ := edges_of_sourceForm h
  rw [Text.trim_eq_self_iff, String.toList_ofList]
  exact ⟨Text.dropBlanks_cons_of_not_blank hfirst, hend⟩

theorem exists_concat_binaryForm (t : JvmType) :
    ∃ init last, t.binaryForm = init ++ [last] ∧ Text.isBlank last = false := by
  induction t with
  | primitive p => exact ⟨[], p.letter, rfl, by cases p <;> decide⟩
  | reference name => exact ⟨'L' :: name.toList, ';', rfl, by decide⟩
  | array element ih =>
    obtain ⟨init, last, hform, hlast⟩ := ih
    exact ⟨'[' :: init, last, by rw [binaryForm, hform]; rfl, hlast⟩

theorem trim_binaryForm (element : JvmType) :
    Text.trim (String.ofList (array element).binaryForm) =
      String.ofList (array element).binaryForm := by
  obtain ⟨init, last, hform, hlast⟩ := exists_concat_binaryForm (array element)
  rw [Text.trim_eq_self_iff, String.toList_ofList]
  refine ⟨Text.dropBlanks_cons_of_not_blank (by decide), ?_⟩
  rw [hform]
  exact Text.dropBlanksRight_concat hlast init

/-! ## Descriptors -/

/-- A descriptor is the binary form with the separators of class names replaced. -/
theorem descriptorChars_eq_map_binaryForm (t : JvmType) :
    t.descriptorChars = t.binaryForm.map fun c => if c = '.' then '/' else c := by
  induction t with
  | primitive p => cases p <;> decide
  | reference name => simp [descriptorChars, binaryForm]
  | array element ih => simp [descriptorChars, binaryForm, ih]

end JvmType

theorem Descriptor.ofTypeName_of_spells {t : JvmType} {text : String} (h : t.Spells text) :
    ofTypeName text = t.descriptor := by
  cases h with
  | @source _ _ body before after hbody hbefore hafter htext =>
    have htrim : Text.trim text = String.ofList body := by
      refine Text.trim_padded hbefore hafter (JvmType.trim_sourceForm hbody) ?_
      rwa [String.toList_ofList]
    have hnot : ¬ isBinaryArray (String.ofList body) = true := by
      obtain ⟨⟨first, rest, rfl, -, hfirst⟩, -⟩ := JvmType.edges_of_sourceForm hbody
      simpa [isBinaryArray] using hfirst
    rw [ofTypeName, htrim, if_neg hnot, JvmType.ofSource, String.toList_ofList,
      JvmType.ofReversed_of_sourceForm hbody]
  | @binary element _ before after hbefore hafter htext =>
    have htrim : Text.trim text = String.ofList (JvmType.array element).binaryForm := by
      refine Text.trim_padded hbefore hafter (JvmType.trim_binaryForm element) ?_
      rwa [String.toList_ofList]
    have harray : isBinaryArray (String.ofList (JvmType.array element).binaryForm) = true := by
      simp [isBinaryArray, JvmType.binaryForm]
    rw [ofTypeName, htrim, if_pos harray]
    apply String.toList_inj.1
    rw [ClassName.toList_toInternal, String.toList_ofList, JvmType.toList_descriptor,
      JvmType.descriptorChars_eq_map_binaryForm]

end JvmCompletion
