import JvmCompletion.ClassName
import JvmCompletion.Proofs.MergedNames
import JvmCompletion.Proofs.OpenDescriptors
import JvmCompletion.Proofs.Selections

/-!
# The classes that suggested descriptors denote

A descriptor of a class, or of an array over it, can be completed to from any beginning of the class
name, and every suggestion is a descriptor of a class in the index, as long as the reader takes off
no more markers than were meant as such. A class name that starts with `L` loses these letters to
the markers: it is found by what is behind them, and what is suggested for it denotes another class.
`descriptor_items_complete_and_sound` says which of the two is the case.
-/

namespace JvmCompletion

/-- A name that a descriptor can hold: it is not empty, has no blanks at its edges and none of the
characters `;`, `[` and `.`. -/
def ClassName.Valid (name : String) : Prop :=
  name ≠ "" ∧ Text.trim name = name ∧ ∀ c ∈ name.toList, c ≠ ';' ∧ c ≠ '[' ∧ c ≠ '.'

-- the quantifier is over the characters of the name, not over all there are
instance (name : String) : Decidable (ClassName.Valid name) :=
  have : Decidable (∀ c ∈ name.toList, c ≠ ';' ∧ c ≠ '[' ∧ c ≠ '.') := List.decidableBAll ..
  inferInstanceAs (Decidable (_ ∧ _ ∧ _))

/-- A name with a number of letters `L` in front. -/
def ClassName.withLs (k : Nat) (rest : String) : String :=
  String.ofList (List.replicate k 'L' ++ rest.toList)

/-- The descriptor of a class, or of the arrays of dimension `n` over it, up to the name or a
beginning of it. -/
def Descriptor.opened (n : Nat) (name : String) : String :=
  String.ofList (List.replicate n '[' ++ 'L' :: name.toList)

namespace OpenDescriptor

open ClassName (Valid withLs)
open Descriptor (opened)

@[simp] theorem toList_withLs (k : Nat) (rest : String) :
    (withLs k rest).toList = List.replicate k 'L' ++ rest.toList :=
  String.toList_ofList

@[simp] theorem toList_opened (n : Nat) (name : String) :
    (opened n name).toList = List.replicate n '[' ++ 'L' :: name.toList :=
  String.toList_ofList

@[simp] theorem withLs_zero (rest : String) : withLs 0 rest = rest := String.ofList_toList

/-- The markers of a descriptor whose name starts with letters `L` go on through these. -/
theorem opened_withLs (n k : Nat) (rest : String) :
    opened n (withLs k rest) = opened n (withLs k "") ++ rest := by
  apply String.toList_inj.1
  simp

/-! ## Reading what was typed of a valid descriptor -/

theorem isBlank_head_of_valid {name : String} {c : Char} {rest : List Char} (h : Valid name)
    (hname : name.toList = c :: rest) : Text.isBlank c = false := by
  have htrim : Text.dropBlanksRight (Text.dropBlanks name.toList) = c :: rest := by
    rw [← Text.toList_trim, h.2.1, hname]
  obtain ⟨tail, htail⟩ := Text.dropBlanksRight_isPrefix (Text.dropBlanks name.toList)
  rw [htrim, List.cons_append] at htail
  exact Text.isBlank_head_dropBlanks htail.symm

theorem toList_trim_opened (n k : Nat) (rest : String) :
    (Text.trim (opened n (withLs k rest))).toList =
      (opened n (withLs k "")).toList ++ Text.dropBlanksRight rest.toList := by
  have hstart : Text.dropBlanks (opened n (withLs k rest)).toList =
      (opened n (withLs k rest)).toList := by
    rw [toList_opened]
    cases n <;> exact Text.dropBlanks_cons_of_not_blank (by decide)
  have hend : Text.dropBlanksRight (opened n (withLs k "")).toList =
      (opened n (withLs k "")).toList := by
    have hlast : (opened n (withLs k "")).toList =
        (List.replicate n '[' ++ List.replicate k 'L') ++ ['L'] := by
      simp [← List.replicate_succ, ← List.replicate_succ']
    rw [hlast]
    exact Text.dropBlanksRight_concat (by decide) _
  rw [Text.toList_trim, hstart, opened_withLs, String.toList_append,
    Text.dropBlanksRight_append hend]

/-- What was typed of a descriptor is read as all the `L` in front and the rest of the name, if any
is left after trimming. -/
theorem read?_opened {n k : Nat} {rest : String} (hL : rest.toList.head? ≠ some 'L')
    (hrest : ∀ c ∈ rest.toList, c ≠ ';' ∧ c ≠ '[') :
    read? (opened n (withLs k rest)) =
      if Text.dropBlanksRight rest.toList = [] then none
      else some ⟨opened n (withLs k ""), String.ofList (Text.dropBlanksRight rest.toList)⟩ := by
  have hmarkers : ∀ c ∈ (opened n (withLs k "")).toList, isMarker c = true := by
    intro c hc
    simp only [toList_opened, toList_withLs, List.mem_append, List.mem_cons,
      List.mem_replicate] at hc
    rcases hc with ⟨-, rfl⟩ | rfl | ⟨-, rfl⟩ | hc
    · rfl
    · rfl
    · rfl
    · exact absurd hc List.not_mem_nil
  split
  · rename_i hblank
    refine Option.eq_none_iff_forall_ne_some.2 fun d hd => ?_
    obtain ⟨htext, -, -, first, more, hname, hfirst, -⟩ := read?_eq_some_iff.1 hd
    have hmem : first ∈ (Text.trim (opened n (withLs k rest))).toList := by
      rw [← htext, String.toList_append, hname]
      exact List.mem_append_right _ List.mem_cons_self
    rw [toList_trim_opened, hblank, List.append_nil] at hmem
    rw [hmarkers first hmem] at hfirst
    cases hfirst
  · rename_i hne
    obtain ⟨first, more, hname⟩ := List.exists_cons_of_ne_nil hne
    obtain ⟨tail, htail⟩ := Text.dropBlanksRight_isPrefix rest.toList
    have hin : ∀ c ∈ first :: more, c ∈ rest.toList := fun c hc => by
      rw [← htail, hname]
      exact List.mem_append_left _ hc
    have hhead : rest.toList.head? = some first := by rw [← htail, hname]; rfl
    refine read?_eq_some_iff.2 ⟨?_, hmarkers, by simp, first, more, ?_, ?_, fun hc => ?_⟩
    · apply String.toList_inj.1
      rw [toList_trim_opened, String.toList_append, String.toList_ofList]
    · rw [String.toList_ofList, hname]
    · have hfirstL : first ≠ 'L' := fun he => hL (he ▸ hhead)
      have hfirstB : first ≠ '[' := (hrest first (hin first List.mem_cons_self)).2
      simp [isMarker, hfirstL, hfirstB]
    · exact (hrest ';' (hin ';' (List.mem_cons_of_mem _ hc))).1 rfl

/-! ## Taking a descriptor apart -/

/-- Markers in front of a name make a descriptor only if they are brackets followed by letters `L`;
the first `L` is its own and the others belong to the name. -/
theorem markers_append_eq_opened {m name other : List Char} {n : Nat}
    (hm : ∀ c ∈ m, isMarker c = true) (hL : 'L' ∈ m) (ho : '[' ∉ other)
    (h : m ++ name = List.replicate n '[' ++ 'L' :: other) :
    ∃ k, m = List.replicate n '[' ++ 'L' :: List.replicate k 'L' ∧
      other = List.replicate k 'L' ++ name := by
  induction n generalizing m with
  | zero =>
    cases m with
    | nil => exact absurd hL List.not_mem_nil
    | cons x m =>
      obtain ⟨rfl, hrest⟩ : x = 'L' ∧ m ++ name = other := List.cons.inj h
      have hall : ∀ c ∈ m, c = 'L' := by
        intro c hc
        have hcm := hm c (List.mem_cons_of_mem _ hc)
        have hcb : c ≠ '[' := fun he => ho (hrest ▸ List.mem_append_left _ (he ▸ hc))
        simpa [isMarker, hcb] using hcm
      have hrep : m = List.replicate m.length 'L' := List.eq_replicate_iff.2 ⟨rfl, hall⟩
      exact ⟨m.length, by rw [← hrep]; rfl, by rw [← hrep, hrest]⟩
  | succ n ih =>
    cases m with
    | nil => exact absurd hL List.not_mem_nil
    | cons x m =>
      obtain ⟨rfl, hrest⟩ := List.cons.inj h
      have hLm : 'L' ∈ m := by simpa using hL
      obtain ⟨k, hk, hother⟩ := ih (fun c hc => hm c (List.mem_cons_of_mem _ hc)) hLm hrest
      exact ⟨k, by rw [hk]; rfl, hother⟩

theorem opened_withLs_inj {n k : Nat} {a b : String} :
    opened n (withLs k a) ++ ";" = opened n (withLs k b) ++ ";" ↔ a = b := by
  rw [← String.toList_inj, ← String.toList_inj]
  simp

/-- A beginning of a name is one of the letters `L` in front, or has all of these and a beginning of
what follows them. -/
theorem begins_withLs {k : Nat} {f rest : String} (h : Text.begins f (withLs k rest) = true) :
    (f.length ≤ k ∧ f = withLs f.length "") ∨
      ∃ g, g ≠ "" ∧ f = withLs k g ∧ Text.begins g rest = true := by
  obtain ⟨tail, htail⟩ := Text.begins_iff_append.1 h
  have hlists : f.toList ++ tail.toList = List.replicate k 'L' ++ rest.toList := by
    rw [← String.toList_append, htail, toList_withLs]
  have hshort : ∀ more, List.replicate k 'L' = f.toList ++ more →
      f.length ≤ k ∧ f = withLs f.length "" := by
    intro more hmore
    obtain ⟨hlen, hf, -⟩ := List.append_eq_replicate_iff.1 hmore.symm
    refine ⟨by rw [← String.length_toList]; omega, String.toList_inj.1 ?_⟩
    rw [toList_withLs, String.toList_empty, List.append_nil, ← String.length_toList]
    exact hf
  rcases List.append_eq_append_iff.1 hlists with ⟨more, hmore, -⟩ | ⟨g, hg, hrest⟩
  · exact Or.inl (hshort more hmore)
  · cases hgl : g with
    | nil => exact Or.inl (hshort [] (by rw [hg, hgl]; simp))
    | cons c cs =>
      refine Or.inr ⟨String.ofList g, by simp [hgl], ?_, ?_⟩
      · exact String.toList_inj.1 (by rw [toList_withLs, String.toList_ofList, hg])
      · exact Text.begins_iff.2 ⟨tail.toList, by rw [String.toList_ofList, hrest]⟩

/-- A beginning of a valid name does not go when it is trimmed, and stays a beginning. -/
theorem begins_dropBlanksRight {g rest : String} (hrest : Valid rest) (hne : g ≠ "")
    (hg : Text.begins g rest = true) :
    Text.dropBlanksRight g.toList ≠ [] ∧
      Text.begins (String.ofList (Text.dropBlanksRight g.toList)) rest = true := by
  obtain ⟨tail, htail⟩ := Text.begins_iff_append.1 hg
  have hlists : g.toList ++ tail.toList = rest.toList := by rw [← String.toList_append, htail]
  constructor
  · obtain ⟨first, more, hfirst⟩ : ∃ first more, g.toList = first :: more :=
      List.exists_cons_of_ne_nil fun he => hne (String.toList_eq_nil_iff.1 he)
    have hcons : rest.toList = first :: (more ++ tail.toList) := by rw [← hlists, hfirst]; rfl
    rw [hfirst]
    exact Text.dropBlanksRight_cons_ne_nil (isBlank_head_of_valid hrest hcons)
  · obtain ⟨blanks, hblanks⟩ := Text.dropBlanksRight_isPrefix g.toList
    refine Text.begins_iff.2 ⟨blanks ++ tail.toList, ?_⟩
    rw [String.toList_ofList, ← List.append_assoc, hblanks, hlists]

end OpenDescriptor

namespace Completer

open ClassName (Valid withLs)
open Descriptor (opened)
open OpenDescriptor

/-- What is suggested for the beginning of a descriptor closes over the names that begin with what
is left of the typed name when it has lost its letters `L` and the blanks at its end. -/
theorem mem_items_opened {s : Sources} {owner : Option String} {n k : Nat} {g item : String}
    (hL : g.toList.head? ≠ some 'L') (hg : ∀ c ∈ g.toList, c ≠ ';' ∧ c ≠ '[') :
    item ∈ (complete s {} ⟨.descriptor, owner, opened n (withLs k g)⟩).items ↔
      Text.dropBlanksRight g.toList ≠ [] ∧ ∃ name, s.Lists name ∧
        Text.begins (String.ofList (Text.dropBlanksRight g.toList)) name = true ∧
        opened n (withLs k name) ++ ";" = item := by
  rw [items_descriptor, read?_opened hL hg, NameIndex.names_empty]
  split_ifs with hblank
  · simp [hblank]
  · have hclose : ∀ name, close ⟨opened n (withLs k ""),
        String.ofList (Text.dropBlanksRight g.toList)⟩ name = opened n (withLs k name) ++ ";" :=
      fun name => by rw [close, opened_withLs n k name]
    simp only [Selection.mem_apply_closing, Sources.mem_classNames, hclose, ne_eq, hblank,
      not_false_eq_true, true_and]

/-- A listed name with letters `L` in front is suggested if more than these letters was typed and
the name without them is listed. -/
theorem mem_items_of_withLs {s : Sources} {owner : Option String}
    (valid : ∀ name, s.Lists name → Valid name) {n k : Nat} {rest f : String}
    (hlisted : s.Lists (withLs k rest)) (hL : rest.toList.head? ≠ some 'L') (hf : f ≠ "")
    (hbegins : Text.begins f (withLs k rest) = true) :
    opened n (withLs k rest) ++ ";" ∈
        (complete s {} ⟨.descriptor, owner, opened n f⟩).items ↔
      k < f.length ∧ s.Lists rest := by
  rcases begins_withLs hbegins with ⟨hlen, hf'⟩ | ⟨g, hne, rfl, hg⟩
  · rw [hf', mem_items_opened (by simp) (by simp)]
    constructor
    · exact fun h => absurd rfl h.1
    · rintro ⟨hk, -⟩
      rw [← hf'] at hk
      omega
  · obtain ⟨tail, htail⟩ := Text.begins_iff_append.1 hg
    have hlists : g.toList ++ tail.toList = rest.toList := by rw [← String.toList_append, htail]
    have hgne : g.toList ≠ [] := fun he => hne (String.toList_eq_nil_iff.1 he)
    have hgL : g.toList.head? ≠ some 'L' := by
      rwa [← hlists, List.head?_append_of_ne_nil _ hgne] at hL
    have hchars : ∀ c ∈ g.toList, c ≠ ';' ∧ c ≠ '[' := by
      intro c hc
      have hrest : c ∈ (withLs k rest).toList := by
        rw [toList_withLs, ← hlists]
        exact List.mem_append_right _ (List.mem_append_left _ hc)
      obtain ⟨hsemi, hbracket, -⟩ := (valid _ hlisted).2.2 c hrest
      exact ⟨hsemi, hbracket⟩
    have hk : k < (withLs k g).length := by
      have hpos := List.length_pos_iff.2 hgne
      rw [← String.length_toList, toList_withLs, List.length_append, List.length_replicate]
      omega
    rw [mem_items_opened hgL hchars]
    simp only [opened_withLs_inj]
    constructor
    · rintro ⟨-, name, hname, -, rfl⟩
      exact ⟨hk, hname⟩
    · rintro ⟨-, hrest⟩
      obtain ⟨hleft, hstart⟩ := begins_dropBlanksRight (valid _ hrest) hne hg
      exact ⟨hleft, rest, hrest, hstart, rfl⟩

theorem item_descriptor_eq_close {s : Sources} {owner : Option String} {typed item : String}
    (h : item ∈ (complete s {} ⟨.descriptor, owner, typed⟩).items) :
    ∃ d name, read? typed = some d ∧ s.Lists name ∧ item = d.close name := by
  rw [items_descriptor, NameIndex.names_empty] at h
  cases hread : read? typed with
  | none => rw [hread] at h; exact absurd h List.not_mem_nil
  | some d =>
    rw [hread] at h
    obtain ⟨name, hname, -, rfl⟩ := Selection.mem_apply_closing.1 h
    exact ⟨d, name, rfl, Sources.mem_classNames.1 hname, rfl⟩

/-- The markers and a valid name make the descriptor of a listed class exactly if the markers are
brackets followed by letters `L` and the name with all but the first of these is listed. -/
theorem denotes_listed_iff {s : Sources} (valid : ∀ name, s.Lists name → Valid name)
    {typed name : String} {d : OpenDescriptor} (hread : read? typed = some d) :
    (∃ n other, s.Lists other ∧ d.close name = opened n other ++ ";") ↔
      ∃ n k, d.markers = opened n (withLs k "") ∧ s.Lists (withLs k name) := by
  obtain ⟨-, hm, hL, -⟩ := read?_eq_some_iff.1 hread
  constructor
  · rintro ⟨n, other, hother, hclose⟩
    have hlists :
        d.markers.toList ++ name.toList = List.replicate n '[' ++ 'L' :: other.toList := by
      rw [← String.toList_inj, toList_close] at hclose
      simpa [← List.append_assoc] using hclose
    have hbracket : '[' ∉ other.toList := fun hc => ((valid other hother).2.2 '[' hc).2.1 rfl
    obtain ⟨k, hk, hname⟩ := markers_append_eq_opened hm hL hbracket hlists
    refine ⟨n, k, String.toList_inj.1 ?_, ?_⟩
    · rw [hk, toList_opened, toList_withLs, String.toList_empty, List.append_nil]
    · rwa [show withLs k name = other from String.toList_inj.1 (by rw [toList_withLs, hname])]
  · rintro ⟨n, k, hmarkers, hlists⟩
    exact ⟨n, withLs k name, hlists, by rw [close, hmarkers, ← opened_withLs]⟩

/-- Over valid names, a class whose name does not start with `L` is suggested for each beginning of
its descriptor. One whose name does is suggested only where the name without these letters is listed
as well and more than they are typed. Each suggestion is the markers that were typed, a listed name
and `;`, and so the descriptor of a listed class exactly if the markers are brackets followed by
letters `L` and the name with all but the first of these in front is listed. -/
theorem descriptor_items_complete_and_sound (s : Sources) (owner : Option String)
    (valid : ∀ name, s.Lists name → Valid name) :
    (∀ n name f, s.Lists name → name.toList.head? ≠ some 'L' → f ≠ "" →
        Text.begins f name = true →
        opened n name ++ ";" ∈ (complete s {} ⟨.descriptor, owner, opened n f⟩).items) ∧
      (∀ n k rest f, s.Lists (withLs k rest) → rest.toList.head? ≠ some 'L' → f ≠ "" →
        Text.begins f (withLs k rest) = true →
        (opened n (withLs k rest) ++ ";" ∈
            (complete s {} ⟨.descriptor, owner, opened n f⟩).items ↔
          k < f.length ∧ s.Lists rest)) ∧
      ∀ typed, ∀ item ∈ (complete s {} ⟨.descriptor, owner, typed⟩).items, ∃ markers name,
        markers = String.ofList ((Text.trim typed).toList.takeWhile isMarker) ∧
          'L' ∈ markers.toList ∧ s.Lists name ∧ item = markers ++ name ++ ";" ∧
          ((∃ n other, s.Lists other ∧ item = opened n other ++ ";") ↔
            ∃ n k, markers = opened n (withLs k "") ∧ s.Lists (withLs k name)) := by
  refine ⟨?_, ?_, ?_⟩
  · intro n name f hname hL hf hbegins
    have hlen : 0 < f.length := by
      rw [← String.length_toList]
      exact List.length_pos_iff.2 fun he => hf (String.toList_eq_nil_iff.1 he)
    rw [← withLs_zero name] at hname hbegins ⊢
    exact (mem_items_of_withLs valid hname hL hf hbegins).2 ⟨hlen, by rwa [withLs_zero] at hname⟩
  · intro n k rest f hname hL hf hbegins
    exact mem_items_of_withLs valid hname hL hf hbegins
  · intro typed item hitem
    obtain ⟨d, name, hread, hname, rfl⟩ := item_descriptor_eq_close hitem
    obtain ⟨-, -, hL, -⟩ := read?_eq_some_iff.1 hread
    exact ⟨d.markers, name, takeWhile_of_read? hread, hL, hname, rfl,
      denotes_listed_iff valid hread⟩

/-- An array over a class, a class with an `L` in front of a listed name, and the class that the
latter's descriptor denotes. -/
theorem descriptor_items_of_both_libs :
    let s : Sources := ⟨⟨["a/B", "Lib/A", "ib/A"], Table.empty⟩, none⟩
    (∀ name, s.Lists name → Valid name) ∧
      opened 2 "a/B" ++ ";" ∈ (complete s {} ⟨.descriptor, none, opened 2 "a/"⟩).items ∧
      opened 0 (withLs 1 "ib/A") ++ ";" ∈
        (complete s {} ⟨.descriptor, none, opened 0 "Lib"⟩).items ∧
      ∃ n other, s.Lists other ∧ opened 0 (withLs 1 "ib/A") ++ ";" = opened n other ++ ";" := by
  intro s
  have valid : ∀ name, s.Lists name → Valid name := by
    rintro name (hname | ⟨w, hw, -⟩)
    · exact (by decide : ∀ name ∈ ["a/B", "Lib/A", "ib/A"], Valid name) name hname
    · cases hw
  obtain ⟨complete, completeL, -⟩ := descriptor_items_complete_and_sound s none valid
  have hlib : s.Lists (withLs 1 "ib/A") := Or.inl (by decide)
  refine ⟨valid, complete 2 "a/B" "a/" (Or.inl (by decide)) (by decide) (by decide) (by decide),
    (completeL 0 1 "ib/A" "Lib" hlib (by decide) (by decide) (by decide)).2
      ⟨by decide, Or.inl (by decide)⟩, 0, withLs 1 "ib/A", hlib, rfl⟩

/-- A class whose name starts with `L` is not found by the beginning of its name, and a class that
is not listed is suggested in its place. -/
theorem descriptor_items_of_name_with_L :
    let s : Sources := ⟨⟨["Lib/A", "ib/B"], Table.empty⟩, none⟩
    let answer := (complete s {} ⟨.descriptor, none, opened 0 "Lib"⟩).items
    (∀ name, s.Lists name → Valid name) ∧ s.Lists "Lib/A" ∧ Text.begins "Lib" "Lib/A" = true ∧
      opened 0 "Lib/A" ++ ";" ∉ answer ∧ "LLib/B;" ∈ answer ∧
      ¬ ∃ n other, s.Lists other ∧ "LLib/B;" = opened n other ++ ";" := by
  intro s answer
  have hlisted : ∀ name, s.Lists name ↔ name ∈ ["Lib/A", "ib/B"] := fun name => by
    simp [Sources.Lists, s]
  have hanswer : answer = ["LLib/B;"] := by
    have hread : read? (opened 0 "Lib") = some ⟨"LL", "ib"⟩ := by decide
    have hnames : s.classNames = ["Lib/A", "ib/B"] := Sources.classNames_eq (by decide) hlisted
    have h := items_descriptor s {} none (opened 0 "Lib")
    rw [hread, NameIndex.names_empty, hnames] at h
    exact h.trans (by decide)
  refine ⟨fun name hname => ?_, (hlisted _).2 (by decide), by decide, by rw [hanswer]; decide,
    by rw [hanswer]; decide, ?_⟩
  · exact (by decide : ∀ name ∈ ["Lib/A", "ib/B"], Valid name) name ((hlisted name).1 hname)
  · rintro ⟨n, other, hother, h⟩
    cases n with
    | zero =>
      exact (by decide : ∀ other ∈ ["Lib/A", "ib/B"], "LLib/B;" ≠ opened 0 other ++ ";") other
        ((hlisted other).1 hother) h
    | succ n =>
      have hhead := congrArg (fun text => text.toList.head?) h
      simp [List.replicate_succ] at hhead

end Completer

end JvmCompletion
