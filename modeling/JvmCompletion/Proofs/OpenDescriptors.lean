import JvmCompletion.Descriptor.Open
import JvmCompletion.Proofs.Trimming
import Mathlib.Data.String.Basic

/-!
# Reading and closing open descriptors

`read?_eq_some_iff` says which texts are open descriptors, and of which parts: the markers are the
whole run of `[` and `L` at the front, with an `L` among them, and the name is all the rest, which
may have a `;` in front but no other.

`close_lt_close_iff` compares two descriptors that one open descriptor is closed to. The `;` that
closes the shorter one stands against whatever the longer name goes on with, so the order of the
names is turned around by every character that is below `;`.
-/

namespace JvmCompletion.OpenDescriptor

/-! ## Reading -/

theorem takeWhile_markers_append {markers : List Char} {first : Char}
    (hm : ∀ c ∈ markers, isMarker c = true) (hf : isMarker first = false) (rest : List Char) :
    (markers ++ first :: rest).takeWhile isMarker = markers := by
  rw [List.takeWhile_append_of_pos hm, List.takeWhile_cons_of_neg (by rw [hf]; decide),
    List.append_nil]

theorem dropWhile_markers_append {markers : List Char} {first : Char}
    (hm : ∀ c ∈ markers, isMarker c = true) (hf : isMarker first = false) (rest : List Char) :
    (markers ++ first :: rest).dropWhile isMarker = first :: rest := by
  rw [List.dropWhile_append_of_pos hm, List.dropWhile_cons_of_neg (by rw [hf]; decide)]

/-- The open descriptor that a text is, if it is one. -/
theorem read?_eq_some_iff {typed : String} {d : OpenDescriptor} :
    read? typed = some d ↔
      d.markers ++ d.name = Text.trim typed ∧ (∀ c ∈ d.markers.toList, isMarker c = true) ∧
        'L' ∈ d.markers.toList ∧
        ∃ first rest, d.name.toList = first :: rest ∧ isMarker first = false ∧ ';' ∉ rest := by
  constructor
  · intro h
    simp only [read?] at h
    split at h
    · rename_i hread
      obtain ⟨hL, hne, hclosed⟩ := hread
      obtain rfl := Option.some.inj h
      obtain ⟨first, rest, hname⟩ := List.exists_cons_of_ne_nil hne
      refine ⟨?_, ?_, ?_, first, rest, ?_, ?_, ?_⟩
      · rw [← String.ofList_append, List.takeWhile_append_dropWhile, String.ofList_toList]
      · rw [String.toList_ofList]
        exact fun c hc => List.mem_takeWhile_imp hc
      · rwa [String.toList_ofList]
      · rw [String.toList_ofList, hname]
      · have hhead := List.head_dropWhile_not isMarker hne
        simp only [hname, List.head_cons] at hhead
        simpa using hhead
      · rwa [hname, List.tail_cons] at hclosed
    · exact absurd h (by simp)
  · rintro ⟨htext, hm, hL, first, rest, hname, hf, hclosed⟩
    have hlist : (Text.trim typed).toList = d.markers.toList ++ first :: rest := by
      rw [← htext, String.toList_append, hname]
    have hrun := takeWhile_markers_append hm hf rest
    have hleft := dropWhile_markers_append hm hf rest
    simp only [read?, hlist, hrun, hleft]
    rw [if_pos ⟨hL, by simp, by simpa using hclosed⟩, ← hname, String.ofList_toList,
      String.ofList_toList]

/-- The markers of an open descriptor are the run of `[` and `L` at the front of the text. -/
theorem takeWhile_of_read? {typed : String} {d : OpenDescriptor} (h : read? typed = some d) :
    d.markers = String.ofList ((Text.trim typed).toList.takeWhile isMarker) := by
  simp only [read?] at h
  split at h
  · rw [← Option.some.inj h]
  · exact absurd h (by simp)

/-! ## Closing -/

theorem toList_close (d : OpenDescriptor) (name : String) :
    (d.close name).toList = d.markers.toList ++ (name.toList ++ [';']) := by
  simp [close]

/-- What two words have in common at the front does not matter for their order. -/
theorem append_lt_append_iff {p l m : List Char} : p ++ l < p ++ m ↔ l < m := by
  refine ⟨fun hlt => ?_, List.append_left_lt⟩
  induction p with
  | nil => exact hlt
  | cons x p ih =>
    rw [List.cons_append, List.cons_append, List.cons_lt_cons_iff] at hlt
    rcases hlt with hx | ⟨-, hrest⟩
    · exact absurd hx (lt_irrefl x)
    · exact ih hrest

/-- One more character at the end of both keeps the order of two words, unless the first goes on to
the second with a character below it. -/
theorem append_singleton_lt_iff {l m : List Char} {x : Char} (h : l < m) :
    l ++ [x] < m ++ [x] ↔ ¬ ∃ c rest, m = l ++ c :: rest ∧ c < x := by
  induction h with
  | @nil d m =>
    rw [List.nil_append, List.cons_append, List.cons_lt_cons_iff]
    constructor
    · rintro hx ⟨c, rest, hm, hc⟩
      obtain ⟨rfl, rfl⟩ := List.cons.inj hm
      rcases hx with hx | ⟨rfl, -⟩
      · exact lt_asymm hc hx
      · exact lt_irrefl x hc
    · intro hno
      rcases lt_trichotomy x d with hx | rfl | hd
      · exact Or.inl hx
      · exact Or.inr ⟨rfl, by cases m <;> exact List.Lex.nil⟩
      · exact absurd ⟨d, m, rfl, hd⟩ hno
  | @rel a l b m hab =>
    refine ⟨?_, fun _ => List.Lex.rel hab⟩
    rintro - ⟨c, rest, hm, -⟩
    rw [List.cons_append] at hm
    exact (ne_of_lt hab) (List.cons.inj hm).1.symm
  | @cons a l m _ ih =>
    rw [List.cons_append, List.cons_append, List.cons_lt_cons_iff]
    have hiff : (a < a ∨ a = a ∧ l ++ [x] < m ++ [x]) ↔ l ++ [x] < m ++ [x] := by
      constructor
      · rintro (ha | ⟨-, hlm⟩)
        · exact absurd ha (lt_irrefl a)
        · exact hlm
      · exact fun hlm => Or.inr ⟨rfl, hlm⟩
    rw [hiff, ih]
    simp only [List.cons_append, List.cons.injEq, true_and]

/-- Closing keeps the order of two names, unless the first goes on to the second with a character
below `;`. -/
theorem close_lt_close_iff {d : OpenDescriptor} {a b : String} (h : a < b) :
    d.close a < d.close b ↔ ¬ ∃ c rest, b = a ++ String.ofList (c :: rest) ∧ c < ';' := by
  have hlists : ∀ c rest, b = a ++ String.ofList (c :: rest) ↔ b.toList = a.toList ++ c :: rest :=
    fun c rest => by rw [← String.toList_inj, String.toList_append, String.toList_ofList]
  rw [String.lt_iff_toList_lt, toList_close, toList_close, append_lt_append_iff,
    append_singleton_lt_iff (String.lt_iff_toList_lt.1 h)]
  simp only [hlists]

end JvmCompletion.OpenDescriptor
