import JvmCompletion.ClassName
import JvmCompletion.Text.Blank
import JvmCompletion.Text.Opening
import Mathlib.Data.List.DropRight

/-!
# Trimmed texts

What taking blanks off the edges of a text leaves: nothing of a blank text, and of any other text a
part that starts and ends with characters that are not blank. A class name may be trimmed before or
after it is brought into its internal form.
-/

namespace JvmCompletion.Text

theorem dropBlanksRight_eq_rdropWhile (cs : List Char) :
    dropBlanksRight cs = cs.rdropWhile isBlank := rfl

/-- What is left of a text without the blanks at its end is the beginning of the text. -/
theorem dropBlanksRight_isPrefix (cs : List Char) : dropBlanksRight cs <+: cs :=
  List.rdropWhile_prefix isBlank cs

/-- Nothing but blanks is missing of a text without the blanks at its end. -/
theorem exists_dropBlanksRight_append (cs : List Char) :
    ∃ blanks, (∀ c ∈ blanks, isBlank c = true) ∧ dropBlanksRight cs ++ blanks = cs :=
  ⟨cs.rtakeWhile isBlank, fun _ => List.mem_rtakeWhile_imp,
    List.rdropWhile_append_rtakeWhile⟩

@[simp] theorem dropBlanksRight_dropBlanksRight (cs : List Char) :
    dropBlanksRight (dropBlanksRight cs) = dropBlanksRight cs :=
  List.rdropWhile_idempotent isBlank cs

/-- A text keeps its end exactly if that is not a blank. -/
theorem dropBlanksRight_eq_self_iff {cs : List Char} :
    dropBlanksRight cs = cs ↔ ∀ c ∈ cs.getLast?, isBlank c = false := by
  rw [dropBlanksRight_eq_rdropWhile, List.rdropWhile_eq_self_iff]
  constructor
  · intro h c hc
    obtain ⟨hne, rfl⟩ := List.mem_getLast?_eq_getLast hc
    simpa using h hne
  · intro h hne
    rw [h _ (List.getLast?_eq_some_getLast hne)]
    decide

/-- Blanks have nothing left of them. -/
theorem dropBlanksRight_eq_nil {blanks : List Char} (h : ∀ c ∈ blanks, isBlank c = true) :
    dropBlanksRight blanks = [] := by
  rw [dropBlanksRight_eq_rdropWhile, List.rdropWhile_eq_nil_iff]
  exact h

theorem dropBlanks_eq_nil_iff {cs : List Char} : dropBlanks cs = [] ↔ ∀ c ∈ cs, isBlank c :=
  List.dropWhile_eq_nil_iff

theorem dropBlanks_cons_of_not_blank {c : Char} {cs : List Char} (h : isBlank c = false) :
    dropBlanks (c :: cs) = c :: cs := by
  rw [dropBlanks, List.dropWhile_cons, if_neg (by rw [h]; decide)]

/-- Behind a text that does not end with a blank only what follows it loses blanks. -/
theorem dropBlanksRight_append {cs : List Char} (h : dropBlanksRight cs = cs) (ds : List Char) :
    dropBlanksRight (cs ++ ds) = cs ++ dropBlanksRight ds := by
  have hcs : (dropBlanks cs.reverse).reverse = cs := h
  rw [dropBlanksRight, dropBlanks, List.reverse_append, List.dropWhile_append]
  split
  · rename_i hblank
    have hds : dropBlanksRight ds = [] := by
      rw [dropBlanksRight, dropBlanks, List.isEmpty_iff.1 hblank, List.reverse_nil]
    rw [hds, List.append_nil]
    exact hcs
  · rw [List.reverse_append, List.reverse_reverse]
    rfl

/-- A text that ends with a character that is not blank keeps its end. -/
theorem dropBlanksRight_concat {c : Char} (h : isBlank c = false) (cs : List Char) :
    dropBlanksRight (cs ++ [c]) = cs ++ [c] :=
  List.rdropWhile_concat_neg isBlank cs c (by rw [h]; decide)

/-- A text that starts with a character that is not blank is not blank. -/
theorem dropBlanksRight_cons_ne_nil {c : Char} {cs : List Char} (h : isBlank c = false) :
    dropBlanksRight (c :: cs) ≠ [] := by
  intro he
  rw [dropBlanksRight_eq_rdropWhile, List.rdropWhile_eq_nil_iff] at he
  have hb := he c List.mem_cons_self
  rw [h] at hb
  cases hb

/-- Nothing is left of a text after trimming exactly if it is blank. -/
theorem trim_eq_empty_iff {s : String} : trim s = "" ↔ isBlankText s = true := by
  rw [← String.toList_eq_nil_iff, toList_trim, isBlankText, List.all_eq_true,
    dropBlanksRight_eq_rdropWhile, List.rdropWhile_eq_nil_iff]
  constructor
  · intro h
    cases hd : dropBlanks s.toList with
    | nil => exact dropBlanks_eq_nil_iff.1 hd
    | cons c rest =>
      have hc : isBlank c = true := h c (by rw [hd]; exact List.mem_cons_self)
      rw [isBlank_head_dropBlanks hd] at hc
      cases hc
  · exact fun h c hc => h c ((List.dropWhile_suffix _).subset hc)

/-- Trimming leaves a text as it is exactly if neither edge has blanks to lose. -/
theorem trim_eq_self_iff {s : String} :
    trim s = s ↔ dropBlanks s.toList = s.toList ∧ dropBlanksRight s.toList = s.toList := by
  rw [← String.toList_inj, toList_trim]
  constructor
  · intro h
    -- what is left is as long as the text, so the first pass has dropped nothing
    have hlen : s.toList.length ≤ (dropBlanks s.toList).length := by
      have hprefix := (dropBlanksRight_isPrefix (dropBlanks s.toList)).length_le
      rwa [h] at hprefix
    have hstart : dropBlanks s.toList = s.toList :=
      (List.dropWhile_suffix isBlank).eq_of_length_le hlen
    rw [hstart] at h
    exact ⟨hstart, h⟩
  · rintro ⟨hstart, hend⟩
    rw [hstart, hend]

/-- A text keeps its start exactly if that is not a blank. -/
theorem trimStart_eq_self_iff {s : String} :
    trimStart s = s ↔ ∀ c ∈ s.toList.head?, isBlank c = false := by
  rw [← String.toList_inj, toList_trimStart]
  cases s.toList with
  | nil => simp [dropBlanks]
  | cons c rest =>
    simp only [List.head?_cons, Option.mem_def, Option.some.injEq, forall_eq']
    exact ⟨isBlank_head_dropBlanks, dropBlanks_cons_of_not_blank⟩

theorem trimStart_trim (s : String) : trimStart (trim s) = trim s := by
  rw [trimStart_eq_self_iff, toList_trim]
  intro c hc
  obtain ⟨cs, hcs⟩ := List.head?_eq_some_iff.1 hc
  obtain ⟨ending, hending⟩ := dropBlanksRight_isPrefix (dropBlanks s.toList)
  rw [hcs, List.cons_append] at hending
  exact isBlank_head_dropBlanks hending.symm

@[simp] theorem trim_trim (s : String) : trim (trim s) = trim s := by
  rw [trim_eq_self_iff, ← toList_trimStart, trimStart_trim, toList_trim]
  exact ⟨rfl, dropBlanksRight_dropBlanksRight _⟩

/-- What follows a text that is not empty does not matter for the blanks at its start. -/
theorem trimStart_append_eq_self_iff {opening : String} (h : opening ≠ "") (rest : String) :
    trimStart (opening ++ rest) = opening ++ rest ↔ trimStart opening = opening := by
  have hne : opening.toList ≠ [] := fun he => h (String.toList_eq_nil_iff.1 he)
  rw [trimStart_eq_self_iff, trimStart_eq_self_iff, String.toList_append,
    List.head?_append_of_ne_nil _ hne]

theorem exists_trim_append (s : String) : ∃ ending, trim s ++ ending = trimStart s := by
  obtain ⟨ending, hending⟩ := dropBlanksRight_isPrefix (dropBlanks s.toList)
  exact ⟨String.ofList ending, String.toList_inj.1 (by simpa using hending)⟩

/-- Blanks on both sides of a trimmed text are what trimming takes off. -/
theorem trim_padded {text body : String} {before after : List Char}
    (hbefore : ∀ c ∈ before, isBlank c = true) (hafter : ∀ c ∈ after, isBlank c = true)
    (hbody : trim body = body) (htext : text.toList = before ++ (body.toList ++ after)) :
    trim text = body := by
  obtain ⟨hstart, hend⟩ := trim_eq_self_iff.1 hbody
  have hleft : dropBlanks text.toList = dropBlanks (body.toList ++ after) := by
    rw [htext, dropBlanks, List.dropWhile_append_of_pos hbefore]
    rfl
  have hright : dropBlanksRight after = [] := dropBlanksRight_eq_nil hafter
  apply String.toList_inj.1
  rw [toList_trim, hleft]
  cases hchars : body.toList with
  | nil => rw [List.nil_append, dropBlanks_eq_nil_iff.2 hafter]; rfl
  | cons first rest =>
    rw [hchars] at hstart hend
    have hfirst : isBlank first = false := isBlank_head_dropBlanks hstart
    rw [List.cons_append, dropBlanks_cons_of_not_blank hfirst, ← List.cons_append,
      dropBlanksRight_append hend, hright, List.append_nil]

/-- Every text is what trimming leaves of it between blanks. -/
theorem exists_trim_padded (s : String) :
    ∃ before after, (∀ c ∈ before, isBlank c = true) ∧ (∀ c ∈ after, isBlank c = true) ∧
      s.toList = before ++ ((trim s).toList ++ after) := by
  obtain ⟨after, hafter, hend⟩ := exists_dropBlanksRight_append (dropBlanks s.toList)
  refine ⟨s.toList.takeWhile isBlank, after, fun _ => List.mem_takeWhile_imp, hafter, ?_⟩
  rw [toList_trim, hend]
  exact List.takeWhile_append_dropWhile.symm

/-- Blanks that are put around a text are taken off it again. -/
theorem trim_surrounded {before after : String} (hbefore : isBlankText before = true)
    (hafter : isBlankText after = true) (s : String) : trim (before ++ s ++ after) = trim s := by
  obtain ⟨first, last, hfirst, hlast, htext⟩ := exists_trim_padded s
  have hleft : ∀ c ∈ before.toList ++ first, isBlank c = true := by
    intro c hc
    rcases List.mem_append.1 hc with hc | hc
    · exact List.all_eq_true.1 hbefore c hc
    · exact hfirst c hc
  have hright : ∀ c ∈ last ++ after.toList, isBlank c = true := by
    intro c hc
    rcases List.mem_append.1 hc with hc | hc
    · exact hlast c hc
    · exact List.all_eq_true.1 hafter c hc
  refine trim_padded hleft hright (trim_trim s) ?_
  rw [String.toList_append, String.toList_append, htext]
  simp only [List.append_assoc]

theorem trimStart_preceded {before : String} (hbefore : isBlankText before = true) (s : String) :
    trimStart (before ++ s) = trimStart s := by
  apply String.toList_inj.1
  rw [toList_trimStart, toList_trimStart, String.toList_append, dropBlanks,
    List.dropWhile_append_of_pos (List.all_eq_true.1 hbefore)]
  rfl

/-- Of the start of a text, trimming depends on what is left of it without the blanks. -/
theorem trim_congr_of_trimStart {s t : String} (h : trimStart s = trimStart t) :
    trim s = trim t := by
  rw [← String.toList_inj, toList_trimStart, toList_trimStart] at h
  apply String.toList_inj.1
  rw [toList_trim, toList_trim, h]

/-- What is left of a text that is not blank starts with a character that is not blank. -/
theorem exists_trim_cons {s : String} (h : trim s ≠ "") :
    ∃ first rest, (trim s).toList = first :: rest ∧ isBlank first = false := by
  obtain ⟨first, rest, htrim⟩ := List.exists_cons_of_ne_nil (mt String.toList_eq_nil_iff.1 h)
  refine ⟨first, rest, htrim, ?_⟩
  have hstart := trimStart_eq_self_iff.1 (trimStart_trim s)
  rw [htrim] at hstart
  exact hstart first rfl

/-- A text keeps its start if it begins with one that does. -/
theorem trimStart_eq_self_of_begins {opening s : String} (hne : opening ≠ "")
    (hstart : trimStart opening = opening) (h : begins opening s = true) : trimStart s = s := by
  obtain ⟨rest, hrest⟩ := begins_iff.1 h
  obtain rfl : opening ++ String.ofList rest = s := String.toList_inj.1 (by simpa using hrest)
  exact (trimStart_append_eq_self_iff hne _).2 hstart

/-- A text that is not blank keeps its blanks at the end when it goes on. -/
theorem trimStart_append {s : String} (h : trim s ≠ "") (more : String) :
    trimStart (s ++ more) = trimStart s ++ more := by
  have hne : ¬ (s.toList.dropWhile isBlank).isEmpty = true := by
    intro he
    have hblank : ∀ c ∈ s.toList, isBlank c = true :=
      dropBlanks_eq_nil_iff.1 (List.isEmpty_iff.1 he)
    exact h (trim_eq_empty_iff.2 (List.all_eq_true.2 hblank))
  apply String.toList_inj.1
  rw [toList_trimStart, String.toList_append, String.toList_append, toList_trimStart, dropBlanks,
    List.dropWhile_append, if_neg hne]
  rfl

/-- A text that is not blank still begins as it did when it has gone on and is trimmed again. -/
theorem begins_trim_append {s : String} (h : trim s ≠ "") (more : String) :
    begins (trim s) (trim (s ++ more)) = true := by
  obtain ⟨blanks, -, hblanks⟩ := exists_dropBlanksRight_append (dropBlanks s.toList)
  have hstart : dropBlanks (s ++ more).toList = dropBlanks s.toList ++ more.toList := by
    rw [← toList_trimStart, trimStart_append h, String.toList_append, toList_trimStart]
  have hkept : dropBlanksRight (trim s).toList = (trim s).toList := by
    rw [toList_trim, dropBlanksRight_dropBlanksRight]
  refine begins_iff.2 ⟨dropBlanksRight (blanks ++ more.toList), ?_⟩
  rw [toList_trim (s ++ more), hstart, ← hblanks, List.append_assoc, ← toList_trim,
    dropBlanksRight_append hkept]

theorem trim_append_ne {s : String} (h : trim s ≠ "") (more : String) : trim (s ++ more) ≠ "" := by
  intro he
  have hbegins := begins_trim_append h more
  rw [he] at hbegins
  exact h (eq_of_begins hbegins rfl)

/-- A text begins with another one if it is that one followed by something. -/
theorem begins_iff_append {opening s : String} :
    begins opening s = true ↔ ∃ rest : String, opening ++ rest = s := by
  rw [begins_iff]
  constructor
  · rintro ⟨rest, hrest⟩
    exact ⟨String.ofList rest, String.toList_inj.1 (by simpa using hrest)⟩
  · rintro ⟨rest, rfl⟩
    exact ⟨rest.toList, by simp⟩

end JvmCompletion.Text

namespace JvmCompletion.ClassName

/-- Neither separator of packages is a blank, so the internal form has the blanks of the name. -/
theorem dropBlanks_map (cs : List Char) :
    Text.dropBlanks (cs.map fun c => if c = '.' then '/' else c) =
      (Text.dropBlanks cs).map fun c => if c = '.' then '/' else c := by
  have hblank : Text.isBlank ∘ (fun c => if c = '.' then '/' else c) = Text.isBlank := by
    funext c
    by_cases hdot : c = '.'
    · subst hdot
      decide
    · simp [hdot]
  rw [Text.dropBlanks, List.dropWhile_map, hblank]
  rfl

theorem trim_toInternal (name : String) :
    Text.trim (toInternal name) = toInternal (Text.trim name) := by
  apply String.toList_inj.1
  simp only [Text.toList_trim, toList_toInternal, Text.dropBlanksRight, dropBlanks_map,
    ← List.map_reverse]

theorem trim_toInternal_eq_empty_iff {name : String} :
    Text.trim (toInternal name) = "" ↔ Text.trim name = "" := by
  rw [trim_toInternal, ← String.toList_eq_nil_iff, toList_toInternal, List.map_eq_nil_iff,
    String.toList_eq_nil_iff]

end JvmCompletion.ClassName
