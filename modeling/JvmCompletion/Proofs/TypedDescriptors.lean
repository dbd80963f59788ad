import JvmCompletion.Proofs.OpenDescriptors

/-!
# Descriptors as they are typed

A reference descriptor comes about one character at a time: markers first, then a name, and perhaps
a `;` that closes it. `Progress` is what there is of it after a number of characters. Reading the
characters in this way from the first to the last comes to the same as taking the markers off the
front of the text at once, and `reading_iff_splits` says for either what it finds: the one way to
split the text into markers and the beginning of a name.
-/

namespace JvmCompletion.OpenDescriptor

/-! ## Splitting a text -/

/-- How a text falls into the markers of a reference descriptor and the beginning of a name. -/
structure Splits (text markers name : String) : Prop where
  /-- Nothing of the text is lost. -/
  append_eq : text = markers ++ name
  /-- The markers are brackets and letters `L`. -/
  markers_only : ∀ c ∈ markers.toList, c = 'L' ∨ c = '['
  /-- At least one of them is an `L`. -/
  has_reference : 'L' ∈ markers.toList
  /-- The name has been started. -/
  name_ne : name ≠ ""
  /-- The name starts with the first character that is no marker. -/
  name_head : ∀ c ∈ name.toList.head?, c ≠ 'L' ∧ c ≠ '['
  /-- The descriptor is not closed: only the first character of the name can be a `;`. -/
  name_tail : ';' ∉ name.toList.tail

theorem isMarker_iff {c : Char} : isMarker c = true ↔ c = 'L' ∨ c = '[' := by
  simp [isMarker]

theorem read?_eq_some_iff_splits {typed markers name : String} :
    read? typed = some ⟨markers, name⟩ ↔ Splits (Text.trim typed) markers name := by
  rw [read?_eq_some_iff]
  simp only [isMarker_iff]
  constructor
  · rintro ⟨htext, hmarkers, hL, first, rest, hname, hfirst, hclosed⟩
    refine ⟨htext.symm, hmarkers, hL, ?_, ?_, ?_⟩
    · rintro rfl
      cases hname
    · rw [hname]
      rintro c ⟨⟩
      simpa [isMarker] using hfirst
    · rwa [hname, List.tail_cons]
  · rintro ⟨htext, hmarkers, hL, hne, hhead, htail⟩
    obtain ⟨first, rest, hname⟩ : ∃ first rest, name.toList = first :: rest :=
      List.exists_cons_of_ne_nil fun he => hne (String.toList_eq_nil_iff.1 he)
    rw [hname] at hhead htail
    refine ⟨htext.symm, hmarkers, hL, first, rest, hname, ?_, htail⟩
    simpa [isMarker] using hhead first rfl

/-! ## One character at a time -/

/-- What there is of a reference descriptor after a number of characters. -/
inductive Progress where
  /-- There are only markers, and further ones can follow. -/
  | markers (markers : List Char)
  /-- The name has been started, with its first character, and goes on until a `;` comes. -/
  | name (markers : List Char) (first : Char) (rest : List Char)
  /-- The descriptor is closed for good. -/
  | closed
  deriving DecidableEq, Repr

namespace Progress

/-- Takes the next character. -/
def take : Progress → Char → Progress
  | markers ms, c => if isMarker c then markers (ms ++ [c]) else name ms c []
  | name ms first rest, c => if c = ';' then closed else name ms first (rest ++ [c])
  | closed, _ => closed

/-- The open descriptor that there is when no character is left. -/
def finish? : Progress → Option OpenDescriptor
  | markers _ => none
  | name ms first rest =>
    if 'L' ∈ ms then some ⟨String.ofList ms, String.ofList (first :: rest)⟩ else none
  | closed => none

/-- What the characters that have been taken are, for each thing that they can come to. -/
inductive Of : Progress → List Char → Prop where
  /-- They are markers. -/
  | markers {ms : List Char} (hms : ∀ c ∈ ms, isMarker c = true) : Of (markers ms) ms
  /-- They are markers and a name, in which no `;` comes after the first character. -/
  | name {ms rest : List Char} {first : Char} (hms : ∀ c ∈ ms, isMarker c = true)
      (hfirst : isMarker first = false) (hrest : ';' ∉ rest) :
      Of (name ms first rest) (ms ++ first :: rest)
  /-- They are markers and a name, in which a `;` comes after the first character. -/
  | closed {ms rest : List Char} {first : Char} (hms : ∀ c ∈ ms, isMarker c = true)
      (hfirst : isMarker first = false) (hrest : ';' ∈ rest) : Of closed (ms ++ first :: rest)

theorem Of.take {p : Progress} {taken : List Char} (h : Of p taken) (c : Char) :
    Of (p.take c) (taken ++ [c]) := by
  cases h with
  | @markers ms hms =>
    by_cases hc : isMarker c = true
    · rw [Progress.take, if_pos hc]
      refine Of.markers fun d hd => ?_
      rcases List.mem_append.1 hd with hd | hd
      · exact hms d hd
      · rwa [List.mem_singleton.1 hd]
    · rw [Progress.take, if_neg hc]
      exact Of.name hms (by simpa using hc) List.not_mem_nil
  | @name ms rest first hms hfirst hrest =>
    rw [List.append_assoc, List.cons_append]
    by_cases hc : c = ';'
    · rw [Progress.take, if_pos hc]
      exact Of.closed hms hfirst (by simp [hc])
    · rw [Progress.take, if_neg hc]
      exact Of.name hms hfirst (by simp [hrest, Ne.symm hc])
  | @closed ms rest first hms hfirst hrest =>
    rw [List.append_assoc, List.cons_append]
    exact Of.closed hms hfirst (List.mem_append_left _ hrest)

theorem Of.foldl {p : Progress} {taken : List Char} (h : Of p taken) (rest : List Char) :
    Of (rest.foldl Progress.take p) (taken ++ rest) := by
  induction rest generalizing p taken with
  | nil => rwa [List.append_nil]
  | cons c rest ih =>
    have hnext := ih (h.take c)
    rwa [List.append_assoc] at hnext

/-- What the characters of a text come to is what is read from it. -/
theorem Of.read?_eq {p : Progress} {typed : String} (h : Of p (Text.trim typed).toList) :
    read? typed = p.finish? := by
  generalize htext : (Text.trim typed).toList = text at h
  cases h with
  | markers hms =>
    have hrun : text.takeWhile isMarker = text := List.takeWhile_eq_self_iff.2 hms
    have hleft : text.dropWhile isMarker = [] := List.dropWhile_eq_nil_iff.2 hms
    simp [read?, htext, hrun, hleft, finish?]
  | name hms hfirst hrest =>
    simp [read?, htext, takeWhile_markers_append hms hfirst,
      dropWhile_markers_append hms hfirst, finish?, hrest]
  | closed hms hfirst hrest =>
    simp [read?, htext, takeWhile_markers_append hms hfirst,
      dropWhile_markers_append hms hfirst, finish?, hrest]

end Progress

/-- What was typed, taken one character at a time without the blanks at its edges. -/
def progress (typed : String) : Progress :=
  (Text.trim typed).toList.foldl Progress.take (.markers [])

theorem read?_eq_finish?_progress (typed : String) : read? typed = (progress typed).finish? := by
  have hstart : Progress.Of (.markers []) [] := Progress.Of.markers (by simp)
  have hrun := hstart.foldl (Text.trim typed).toList
  rw [List.nil_append] at hrun
  exact hrun.read?_eq

/-- An open descriptor is read from a text exactly if the text, blanks at its edges aside, splits
into its markers and its name. From any other text nothing is read, and no text splits in two ways.
It makes no difference whether the text is read at once or one character after the other, where a
`;` in the name puts an end to it. -/
theorem reading_iff_splits (typed : String) :
    (∀ markers name, read? typed = some ⟨markers, name⟩ ↔
        Splits (Text.trim typed) markers name) ∧
      ((read? typed = none ∧ ¬ ∃ markers name, Splits (Text.trim typed) markers name) ∨
        ∃! d : OpenDescriptor, Splits (Text.trim typed) d.markers d.name) ∧
      read? typed = (progress typed).finish? := by
  refine ⟨fun markers name => read?_eq_some_iff_splits, ?_, read?_eq_finish?_progress typed⟩
  cases hread : read? typed with
  | none =>
    refine Or.inl ⟨rfl, ?_⟩
    rintro ⟨markers, name, hsplits⟩
    rw [read?_eq_some_iff_splits.2 hsplits] at hread
    cases hread
  | some d =>
    refine Or.inr ⟨d, read?_eq_some_iff_splits.1 hread, fun d' hd' => ?_⟩
    rw [read?_eq_some_iff_splits.2 hd'] at hread
    exact Option.some.inj hread

/-- A `;` belongs to the name while it is the first character of it. -/
example : read? " [L;a " = some ⟨"[L", ";a"⟩ ∧ read? "[L;a;" = none := by decide

end JvmCompletion.OpenDescriptor
