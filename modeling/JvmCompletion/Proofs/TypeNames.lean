import JvmCompletion.Proofs.TypeSpellings
import Mathlib.Data.List.Induction

/-!
# The descriptor of a type name

Whatever text reflection gives for a type, its descriptor can be told from the text. A text in
source form is a word and a number of pairs of brackets, with blanks before some of them; it is that
in one way only, since the last pair comes off the end, then the blanks before it, and so on until a
word is left that ends neither with a blank nor with a pair of brackets. The descriptor has a
bracket for each pair and then what stands for the word, and the binary form of the same array has
the same descriptor. `ofTypeName_exact` puts this together, and adds that the descriptor of an array
is read as itself.
-/

namespace JvmCompletion

/-- A text in source form taken apart. -/
structure SourceParts where
  /-- The word that names the type or, for an array, the innermost element. -/
  word : String
  /-- What stands before each pair of brackets, from left to right. -/
  gaps : List (List Char)

namespace SourceParts

/-- The text that the parts make up. -/
def chars (n : SourceParts) : List Char :=
  n.word.toList ++ n.gaps.flatMap fun gap => gap ++ ['[', ']']

/-- The text could not be taken apart further, and nothing but blanks stands before brackets. -/
structure Proper (n : SourceParts) : Prop where
  word_ne : n.word ≠ ""
  word_end : ∀ c ∈ n.word.toList.getLast?, Text.isBlank c = false
  no_brackets : ¬ ['[', ']'] <:+ n.word.toList
  gaps_blank : ∀ gap ∈ n.gaps, ∀ c ∈ gap, Text.isBlank c = true

theorem chars_concat (word : String) (gaps : List (List Char)) (gap : List Char) :
    chars ⟨word, gaps ++ [gap]⟩ = chars ⟨word, gaps⟩ ++ (gap ++ ['[', ']']) := by
  simp [chars]

theorem proper_concat_iff {word : String} {gaps : List (List Char)} {gap : List Char} :
    Proper ⟨word, gaps ++ [gap]⟩ ↔
      Proper ⟨word, gaps⟩ ∧ ∀ c ∈ gap, Text.isBlank c = true := by
  constructor
  · rintro ⟨hne, hend, hbrackets, hgaps⟩
    refine ⟨⟨hne, hend, hbrackets, fun g hg => ?_⟩, ?_⟩
    · exact hgaps g (List.mem_append_left _ hg)
    · exact hgaps gap (List.mem_append_right _ (List.mem_singleton_self gap))
  · rintro ⟨⟨hne, hend, hbrackets, hgaps⟩, hgap⟩
    refine ⟨hne, hend, hbrackets, fun g hg => ?_⟩
    rcases List.mem_append.1 hg with hg | hg
    · exact hgaps g hg
    · rwa [List.mem_singleton.1 hg]

/-! ## One way to take a text apart -/

/-- Proper parts do not end with a blank. -/
theorem Proper.dropBlanksRight_chars {n : SourceParts} (h : n.Proper) :
    Text.dropBlanksRight n.chars = n.chars := by
  obtain ⟨word, gaps⟩ := n
  rcases List.eq_nil_or_concat gaps with rfl | ⟨gaps, gap, rfl⟩
  · have hchars : chars ⟨word, []⟩ = word.toList := by simp [chars]
    rw [hchars]
    exact Text.dropBlanksRight_eq_self_iff.2 h.word_end
  · have hchars : chars ⟨word, gaps ++ [gap]⟩ =
        (chars ⟨word, gaps⟩ ++ (gap ++ ['['])) ++ [']'] := by
      rw [chars_concat]
      simp
    rw [List.concat_eq_append, hchars]
    exact Text.dropBlanksRight_concat (by decide) _

/-- A word without brackets at its end is not also one with brackets behind it. -/
theorem Proper.chars_ne_concat {word : String} {n : SourceParts} {gap : List Char}
    (h : Proper ⟨word, []⟩) : chars ⟨word, []⟩ ≠ n.chars ++ (gap ++ ['[', ']']) := by
  intro he
  refine h.no_brackets ⟨n.chars ++ gap, ?_⟩
  rw [List.append_assoc, ← he]
  simp [chars]

theorem Proper.chars_inj {n m : SourceParts} (hn : n.Proper) (hm : m.Proper)
    (h : n.chars = m.chars) : n = m := by
  obtain ⟨word, gaps⟩ := n
  obtain ⟨word', gaps'⟩ := m
  -- the pairs of brackets come off one by one from the right
  induction gaps using List.reverseRecOn generalizing gaps' with
  | nil =>
    rcases List.eq_nil_or_concat gaps' with rfl | ⟨gaps', gap', rfl⟩
    · have hword : word.toList = word'.toList := by simpa [chars] using h
      rw [String.toList_inj.1 hword]
    · rw [List.concat_eq_append, chars_concat] at h
      exact absurd h hn.chars_ne_concat
  | append_singleton gaps gap ih =>
    rcases List.eq_nil_or_concat gaps' with rfl | ⟨gaps', gap', rfl⟩
    · rw [chars_concat] at h
      exact absurd h.symm hm.chars_ne_concat
    · rw [List.concat_eq_append] at h hm ⊢
      obtain ⟨hn, hgap⟩ := proper_concat_iff.1 hn
      obtain ⟨hm, hgap'⟩ := proper_concat_iff.1 hm
      rw [chars_concat, chars_concat, ← List.append_assoc, ← List.append_assoc] at h
      have hblanks := List.append_cancel_right h
      have hchars : chars ⟨word, gaps⟩ = chars ⟨word', gaps'⟩ := by
        have hends := congrArg Text.dropBlanksRight hblanks
        rwa [Text.dropBlanksRight_append hn.dropBlanksRight_chars,
          Text.dropBlanksRight_append hm.dropBlanksRight_chars, Text.dropBlanksRight_eq_nil hgap,
          Text.dropBlanksRight_eq_nil hgap', List.append_nil, List.append_nil] at hends
      obtain ⟨rfl, rfl⟩ : word = word' ∧ gaps = gaps' := by
        simpa using ih hn gaps' hm hchars
      rw [List.append_cancel_left hblanks]

/-- A text that starts like the name of a type and does not end with a blank can be taken apart. -/
theorem exists_proper {first : Char} {rest : List Char} (hfirst : Text.isBlank first = false)
    (hbracket : first ≠ '[') (hend : Text.dropBlanksRight (first :: rest) = first :: rest) :
    ∃ n : SourceParts, n.Proper ∧ n.chars = first :: rest := by
  induction hlen : rest.length using Nat.strong_induction_on generalizing rest with
  | h k ih =>
    by_cases hbrackets : ['[', ']'] <:+ first :: rest
    · obtain ⟨inner, hinner⟩ := hbrackets
      cases inner with
      | nil => exact absurd (List.cons.inj hinner).1.symm hbracket
      | cons c inner =>
        obtain ⟨rfl, hrest⟩ : c = first ∧ inner ++ ['[', ']'] = rest := List.cons.inj hinner
        obtain ⟨gap, hgap, hsplit⟩ := Text.exists_dropBlanksRight_append (c :: inner)
        have hne : Text.dropBlanksRight (c :: inner) ≠ [] := Text.dropBlanksRight_cons_ne_nil hfirst
        obtain ⟨d, left, hleft⟩ := List.exists_cons_of_ne_nil hne
        rw [hleft] at hsplit
        obtain ⟨rfl, hgapped⟩ : d = c ∧ left ++ gap = inner := List.cons.inj hsplit
        have hkept : Text.dropBlanksRight (d :: left) = d :: left := by
          rw [← hleft, Text.dropBlanksRight_dropBlanksRight]
        have hshort : left.length < k := by
          rw [← hlen, ← hrest, ← hgapped]
          simp
        obtain ⟨⟨word, gaps⟩, hproper, hchars⟩ := ih left.length hshort hkept rfl
        refine ⟨⟨word, gaps ++ [gap]⟩, proper_concat_iff.2 ⟨hproper, hgap⟩, ?_⟩
        rw [chars_concat, hchars, ← hrest, ← hgapped]
        simp
    · refine ⟨⟨String.ofList (first :: rest), []⟩, ⟨by simp, ?_, by simpa using hbrackets,
        by simp⟩, by simp [chars]⟩
      rw [String.toList_ofList]
      exact Text.dropBlanksRight_eq_self_iff.1 hend

end SourceParts

/-! ## The type of the parts -/

/-- The array of a dimension over a type; the type itself if the dimension is zero. -/
def JvmType.arrays : Nat → JvmType → JvmType
  | 0, t => t
  | k + 1, t => .array (arrays k t)

theorem JvmType.descriptorChars_arrays (k : Nat) (t : JvmType) :
    (arrays k t).descriptorChars = List.replicate k '[' ++ t.descriptorChars := by
  induction k with
  | zero => rfl
  | succ k ih => rw [arrays, descriptorChars, ih, List.replicate_succ, List.cons_append]

theorem JvmType.binaryForm_arrays (k : Nat) (t : JvmType) :
    (arrays k t).binaryForm = List.replicate k '[' ++ t.binaryForm := by
  induction k with
  | zero => rfl
  | succ k ih => rw [arrays, binaryForm, ih, List.replicate_succ, List.cons_append]

/-- A word that a type can be named by is the keyword of a primitive or a class name. -/
theorem JvmType.sourceForm_ofWord {word : String} (hne : word ≠ "")
    (hend : ∀ c ∈ word.toList.getLast?, Text.isBlank c = false)
    (hbrackets : ¬ ['[', ']'] <:+ word.toList)
    (hstart : ∀ c ∈ word.toList.head?, Text.isBlank c = false ∧ c ≠ '[') :
    (ofWord word).SourceForm word.toList := by
  by_cases hkeyword : ∃ p : Primitive, p.keyword = word
  · obtain ⟨p, rfl⟩ := hkeyword
    rw [ofWord_keyword]
    exact .keyword p
  · have htrim : Text.trim word = word := by
      rw [Text.trim_eq_self_iff]
      constructor
      · have hkept := Text.trimStart_eq_self_iff.2 fun c hc => (hstart c hc).1
        rw [← Text.toList_trimStart, hkept]
      · exact Text.dropBlanksRight_eq_self_iff.2 hend
    have hword : ClassName.IsWord word :=
      ⟨hne, htrim, fun h => (hstart '[' h).2 rfl, hbrackets, fun p hp => hkeyword ⟨p, hp⟩⟩
    rw [ofWord_of_isWord hword]
    exact .name hword

/-- Proper parts are a source form of the array that has a dimension for each pair of brackets. -/
theorem SourceParts.Proper.sourceForm {n : SourceParts} (h : n.Proper)
    (hstart : ∀ c ∈ n.word.toList.head?, Text.isBlank c = false ∧ c ≠ '[') :
    (JvmType.arrays n.gaps.length (JvmType.ofWord n.word)).SourceForm n.chars := by
  obtain ⟨word, gaps⟩ := n
  induction gaps using List.reverseRecOn with
  | nil =>
    have hchars : chars ⟨word, []⟩ = word.toList := by simp [chars]
    rw [hchars]
    exact JvmType.sourceForm_ofWord h.word_ne h.word_end h.no_brackets hstart
  | append_singleton gaps gap ih =>
    obtain ⟨hproper, hgap⟩ := proper_concat_iff.1 h
    rw [chars_concat, List.length_append, List.length_singleton]
    exact .brackets (ih hproper hstart) hgap

/-- What stands for a word in the descriptor of its type, and what stands for it in the binary form
of an array: for a keyword the letter of the primitive, for any other word the word between `L` and
`;`, in the descriptor with a slash for each dot. -/
inductive JvmType.WordForms : String → List Char → List Char → Prop where
  | keyword (p : Primitive) : WordForms p.keyword [p.letter] [p.letter]
  | name {word : String} : (∀ p : Primitive, p.keyword ≠ word) →
      WordForms word ('L' :: (word.toList.map fun c => if c = '.' then '/' else c) ++ [';'])
        ('L' :: word.toList ++ [';'])

theorem JvmType.wordForms_ofWord (word : String) :
    WordForms word (ofWord word).descriptorChars (ofWord word).binaryForm := by
  by_cases hkeyword : ∃ p : Primitive, p.keyword = word
  · obtain ⟨p, rfl⟩ := hkeyword
    rw [ofWord_keyword]
    exact .keyword p
  · have hnone : Primitive.ofKeyword? word = none := by
      rw [Primitive.ofKeyword?, List.find?_eq_none]
      intro p _ hp
      exact hkeyword ⟨p, by simpa using hp⟩
    rw [ofWord, hnone, descriptorChars, ClassName.toList_toInternal]
    exact .name fun p hp => hkeyword ⟨p, hp⟩

/-! ## Reading a descriptor -/

namespace Descriptor

/-- The binary form of an array keeps its dots only until its descriptor is made. -/
theorem ofTypeName_toInternal {name : String} (htrim : Text.trim name = name)
    (harray : name.toList.head? = some '[') :
    ofTypeName (ClassName.toInternal name) = ClassName.toInternal name := by
  have hbinary : isBinaryArray (ClassName.toInternal name) = true := by
    simp [isBinaryArray, harray]
  rw [ofTypeName, ClassName.trim_toInternal, htrim, if_pos hbinary,
    ClassName.toInternal_toInternal]

/-- The descriptor of an array is the name of a type, in binary form, and has itself for a
descriptor. -/
theorem ofTypeName_ofTypeName {text : String}
    (harray : (ofTypeName text).toList.head? = some '[') :
    ofTypeName (ofTypeName text) = ofTypeName text := by
  by_cases hbinary : isBinaryArray (Text.trim text) = true
  · have hread : ofTypeName text = ClassName.toInternal (Text.trim text) := by
      rw [ofTypeName, if_pos hbinary]
    rw [hread]
    exact ofTypeName_toInternal (Text.trim_trim text) (by simpa [isBinaryArray] using hbinary)
  · have hread : ofTypeName text = (JvmType.ofSource (Text.trim text)).descriptor := by
      rw [ofTypeName, if_neg hbinary]
    rw [hread] at harray ⊢
    cases htype : JvmType.ofSource (Text.trim text) with
    | primitive p =>
      rw [htype, JvmType.toList_descriptor] at harray
      cases p <;> exact absurd harray (by decide)
    | reference name =>
      rw [htype, JvmType.toList_descriptor] at harray
      exact absurd harray (by simp [JvmType.descriptorChars])
    | array element =>
      have hform : (JvmType.array element).descriptor =
          ClassName.toInternal (String.ofList (JvmType.array element).binaryForm) := by
        apply String.toList_inj.1
        rw [JvmType.toList_descriptor, ClassName.toList_toInternal, String.toList_ofList,
          JvmType.descriptorChars_eq_map_binaryForm]
      rw [hform]
      exact ofTypeName_toInternal (JvmType.trim_binaryForm element) (by simp [JvmType.binaryForm])

/-- A text that is neither blank nor starts with a bracket is a word and a number of pairs of
brackets with blanks before some of them, in one way only. Its descriptor has a bracket for each
pair, followed by what stands for the word; if there are any, the binary form of the same array has
this descriptor too, with any blanks around it. Whatever text it comes from, a descriptor that
starts with a bracket is its own descriptor. -/
theorem ofTypeName_exact (text : String) :
    (Text.trim text ≠ "" → (Text.trim text).toList.head? ≠ some '[' →
      ∃ n : SourceParts, (n.Proper ∧ n.chars = (Text.trim text).toList) ∧
        (∀ m : SourceParts, m.Proper ∧ m.chars = (Text.trim text).toList → m = n) ∧
        ∃ ending binaryEnding, JvmType.WordForms n.word ending binaryEnding ∧
          (ofTypeName text).toList = List.replicate n.gaps.length '[' ++ ending ∧
          ∀ (binary : String) (before after : List Char), 1 ≤ n.gaps.length →
            (∀ c ∈ before, Text.isBlank c = true) → (∀ c ∈ after, Text.isBlank c = true) →
            binary.toList =
              before ++ ((List.replicate n.gaps.length '[' ++ binaryEnding) ++ after) →
            ofTypeName binary = ofTypeName text) ∧
    ((ofTypeName text).toList.head? = some '[' →
      ofTypeName (ofTypeName text) = ofTypeName text) := by
  refine ⟨fun hne hbracket => ?_, ofTypeName_ofTypeName⟩
  obtain ⟨first, rest, htrim, hfirst⟩ := Text.exists_trim_cons hne
  have hnot : first ≠ '[' := by
    rintro rfl
    exact hbracket (by rw [htrim, List.head?_cons])
  have hend : Text.dropBlanksRight (first :: rest) = first :: rest := by
    rw [← htrim, Text.toList_trim, Text.dropBlanksRight_dropBlanksRight]
  obtain ⟨n, hproper, hchars⟩ := SourceParts.exists_proper hfirst hnot hend
  -- the word starts like the text
  have hstart : ∀ c ∈ n.word.toList.head?, Text.isBlank c = false ∧ c ≠ '[' := by
    intro c hc
    obtain ⟨more, hword⟩ := List.head?_eq_some_iff.1 hc
    rw [SourceParts.chars, hword, List.cons_append] at hchars
    rw [(List.cons.inj hchars).1]
    exact ⟨hfirst, hnot⟩
  have htype : ofTypeName text =
      (JvmType.arrays n.gaps.length (JvmType.ofWord n.word)).descriptor := by
    obtain ⟨before, after, hbefore, hafter, htext⟩ := Text.exists_trim_padded text
    rw [htrim, ← hchars] at htext
    exact ofTypeName_of_spells (.source (hproper.sourceForm hstart) hbefore hafter htext)
  rw [htrim]
  refine ⟨n, ⟨hproper, hchars⟩, ?_, _, _, JvmType.wordForms_ofWord n.word, ?_, ?_⟩
  · rintro m ⟨hm, hmchars⟩
    exact hm.chars_inj hproper (hmchars.trans hchars.symm)
  · rw [htype, JvmType.toList_descriptor, JvmType.descriptorChars_arrays]
  · intro binary before after hdimension hbefore hafter hbinary
    rw [htype]
    obtain ⟨k, hk⟩ := Nat.exists_eq_add_of_le' hdimension
    rw [← JvmType.binaryForm_arrays, hk] at hbinary
    rw [hk]
    exact ofTypeName_of_spells (.binary hbefore hafter hbinary)

/-- Blanks of any sort may stand before brackets. -/
theorem ofTypeName_exact_blank_before_brackets :
    let text := " a.B []\u3000[]\t"
    (Text.trim text ≠ "" ∧ (Text.trim text).toList.head? ≠ some '[' ∧
        (ofTypeName text).toList.head? = some '[') ∧
      ofTypeName text = "[[La/B;" ∧ ofTypeName " [[La.B;\u3000" = ofTypeName text ∧
      ofTypeName (ofTypeName text) = ofTypeName text := by
  intro text
  have hne : Text.trim text ≠ "" := by decide
  have hbracket : (Text.trim text).toList.head? ≠ some '[' := by decide
  have hspace : ∀ c ∈ [' '], Text.isBlank c = true := List.forall_mem_singleton.2 (by decide)
  have hwide : ∀ c ∈ ['\u3000'], Text.isBlank c = true :=
    List.forall_mem_singleton.2 (by decide)
  obtain ⟨hsource, hagain⟩ := ofTypeName_exact text
  obtain ⟨n, ⟨-, hchars⟩, hunique, ending, binaryEnding, hforms, hresult, hbinary⟩ :=
    hsource hne hbracket
  obtain rfl : ⟨"a.B", [[' '], ['\u3000']]⟩ = n := by
    exact hunique _ ⟨⟨by decide, Text.dropBlanksRight_eq_self_iff.1 (by decide), by decide,
      List.forall_mem_cons.2 ⟨hspace, List.forall_mem_singleton.2 hwide⟩⟩, by decide⟩
  have hkeyword : ∀ p : Primitive, p.keyword ≠ "a.B" := by
    intro p
    cases p <;> decide
  obtain ⟨rfl, rfl⟩ : ending = ['L', 'a', '/', 'B', ';'] ∧
      binaryEnding = ['L', 'a', '.', 'B', ';'] := by
    generalize hword : "a.B" = word at hforms hkeyword
    cases hforms with
    | keyword p => exact absurd rfl (hkeyword p)
    | name =>
      subst hword
      exact ⟨by decide, by decide⟩
  have htext : ofTypeName text = "[[La/B;" := String.toList_inj.1 (hresult.trans (by decide))
  have harray : (ofTypeName text).toList.head? = some '[' := by
    rw [htext]
    decide
  exact ⟨⟨hne, hbracket, harray⟩, htext,
    hbinary " [[La.B;\u3000" [' '] ['\u3000'] (by decide) hspace hwide (by decide),
    hagain harray⟩

end Descriptor

end JvmCompletion
