import JvmCompletion.Proofs.ByteOrder
import JvmCompletion.Proofs.MergedNames
import JvmCompletion.Proofs.OpenDescriptors
import JvmCompletion.Proofs.Selections

/-!
# The order of suggested descriptors

An open descriptor is closed over the names of the index one by one, in the order in which the index
has them. The results are in order themselves only if closing keeps the order, which it does not for
a class and the classes nested in it: `descriptor_items_ascend_iff` says exactly when they are.
-/

namespace JvmCompletion

/-- A relation holds along a list that ascends strictly if it holds between any two of its elements
that ascend. -/
theorem pairwise_iff_of_pairwise_lt {R : String → String → Prop} {l : List String}
    (h : l.Pairwise (· < ·)) : l.Pairwise R ↔ ∀ a ∈ l, ∀ b ∈ l, a < b → R a b := by
  refine ⟨fun hR => ?_, fun hR => h.imp_of_mem fun ha hb hab => hR _ ha _ hb hab⟩
  induction l with
  | nil => exact fun a ha => absurd ha List.not_mem_nil
  | cons x l ih =>
    obtain ⟨hx, hl⟩ := List.pairwise_cons.1 h
    obtain ⟨hRx, hRl⟩ := List.pairwise_cons.1 hR
    intro a ha b hb hab
    rcases List.mem_cons.1 ha with rfl | hal
    · rcases List.mem_cons.1 hb with rfl | hbl
      · exact absurd hab (lt_irrefl _)
      · exact hRx b hbl
    · rcases List.mem_cons.1 hb with rfl | hbl
      · exact absurd hab (lt_asymm (hx a hal))
      · exact ih hl hRl a hal b hbl hab

/-- The ways to close an open descriptor over names that ascend ascend as well, unless one name goes
on to another one with a character below `;`. -/
theorem Selection.pairwise_apply_closing_iff {d : OpenDescriptor} {names : List String}
    (h : names.Pairwise (· < ·)) :
    ((Selection.closing d).apply names).Pairwise (· < ·) ↔
      ¬ ∃ name c rest, name ∈ names ∧ Text.begins d.name name = true ∧
        name ++ String.ofList (c :: rest) ∈ names ∧ c < ';' := by
  rw [Selection.apply, List.pairwise_map, pairwise_iff_of_pairwise_lt (h.filter _)]
  constructor
  · rintro hall ⟨name, c, rest, hname, hbegins, hlonger, hc⟩
    obtain ⟨start, hstart⟩ := Text.begins_iff_append.1 hbegins
    have hbegins' : Text.begins d.name (name ++ String.ofList (c :: rest)) = true :=
      Text.begins_iff_append.2 ⟨start ++ String.ofList (c :: rest), by
        rw [← String.append_assoc, hstart]⟩
    have hlt : name < name ++ String.ofList (c :: rest) := by
      rw [String.lt_iff_toList_lt, String.toList_append, String.toList_ofList]
      simpa using OpenDescriptor.append_lt_append_iff.2
        (List.Lex.nil : ([] : List Char) < c :: rest)
    have hclose := hall name (List.mem_filter.2 ⟨hname, hbegins⟩) _
      (List.mem_filter.2 ⟨hlonger, hbegins'⟩) hlt
    exact (OpenDescriptor.close_lt_close_iff hlt).1 hclose ⟨c, rest, rfl, hc⟩
  · intro hno a ha b hb hab
    refine (OpenDescriptor.close_lt_close_iff hab).2 ?_
    rintro ⟨c, rest, rfl, hc⟩
    obtain ⟨hname, hbegins⟩ := List.mem_filter.1 ha
    exact hno ⟨a, c, rest, hname, hbegins, (List.mem_filter.1 hb).1, hc⟩

namespace Completer

/-- The suggestions for a descriptor are in the order of their bytes exactly if no class that is
suggested goes on to another class with a character below `;`, as an outer class does to a nested
one with `$`. -/
theorem descriptor_items_ascend_iff (s : Sources) (owner : Option String) (typed : String) :
    ((complete s {} ⟨.descriptor, owner, typed⟩).items.Pairwise
        fun a b => Text.bytes a < Text.bytes b) ↔
      ¬ ∃ d name c rest, OpenDescriptor.read? typed = some d ∧ s.Lists name ∧
        Text.begins d.name name = true ∧ s.Lists (name ++ String.ofList (c :: rest)) ∧
        c < ';' := by
  simp only [Text.bytes_lt_iff]
  rw [items_descriptor, NameIndex.names_empty]
  cases hread : OpenDescriptor.read? typed with
  | none => simp
  | some d =>
    rw [Selection.pairwise_apply_closing_iff s.pairwise_classNames]
    simp only [Sources.mem_classNames, Option.some.injEq]
    constructor
    · rintro hno ⟨d', name, c, rest, rfl, hname, hbegins, hlonger, hc⟩
      exact hno ⟨name, c, rest, hname, hbegins, hlonger, hc⟩
    · rintro hno ⟨name, c, rest, hname, hbegins, hlonger, hc⟩
      exact hno ⟨d, name, c, rest, rfl, hname, hbegins, hlonger, hc⟩

/-- A class is suggested ahead of the classes nested in it, although `;` is above `$`. -/
theorem descriptor_items_of_nested_class :
    let s : Sources := ⟨⟨["a/B", "a/B$C"], Table.empty⟩, none⟩
    let answer := (complete s {} ⟨.descriptor, none, "La/"⟩).items
    answer = ["La/B;", "La/B$C;"] ∧
      ¬ answer.Pairwise fun a b => Text.bytes a < Text.bytes b := by
  intro s answer
  have hnames : s.classNames = ["a/B", "a/B$C"] :=
    Sources.classNames_eq (by decide) fun name => by simp [Sources.Lists, s]
  have hitems : answer = ["La/B;", "La/B$C;"] := by
    have hread : OpenDescriptor.read? "La/" = some ⟨"L", "a/"⟩ := by decide
    have h := items_descriptor s {} none "La/"
    rw [hread, NameIndex.names_empty, hnames] at h
    exact h.trans (by decide)
  refine ⟨hitems, ?_⟩
  simp only [hitems, Text.bytes_lt_iff]
  decide

end Completer

end JvmCompletion
