import JvmCompletion.Sources
import Mathlib.Data.String.Basic

/-!
# Merging the names of both sources

The list of names that completion works on is sorted and free of repetitions, and it has exactly the
names of the class path and of the active workspace. As no two lists are like that and have the same
names, the order and number of times in which a source lists its names do not matter.

Repetitions are taken out twice: before sorting, by keeping the names that have not been seen yet,
and after it, by leaving out each name that equals the one before it. The second pass compares
neighbours only, which is enough since sorting brings equal names together.
-/

namespace JvmCompletion

namespace Names

/-! ## Keeping first occurrences -/

theorem mem_firstOccurrences {name : String} {seen names : List String} :
    name ∈ firstOccurrences seen names ↔ name ∈ names ∧ name ∉ seen := by
  induction names generalizing seen with
  | nil => simp [firstOccurrences]
  | cons first rest ih =>
    by_cases hs : first ∈ seen
    · rw [firstOccurrences, if_pos hs, ih, List.mem_cons]
      constructor
      · exact fun h => ⟨Or.inr h.1, h.2⟩
      · rintro ⟨rfl | hr, hn⟩
        · exact absurd hs hn
        · exact ⟨hr, hn⟩
    · rw [firstOccurrences, if_neg hs, List.mem_cons, ih, List.mem_cons, List.mem_cons, not_or]
      constructor
      · rintro (rfl | ⟨hr, -, hn⟩)
        · exact ⟨Or.inl rfl, hs⟩
        · exact ⟨Or.inr hr, hn⟩
      · rintro ⟨rfl | hr, hn⟩
        · exact Or.inl rfl
        · by_cases he : name = first
          · exact Or.inl he
          · exact Or.inr ⟨hr, he, hn⟩

@[simp] theorem mem_joined {name : String} {first second : List String} :
    name ∈ joined first second ↔ name ∈ first ∨ name ∈ second := by
  rw [joined, mem_firstOccurrences, List.mem_append]
  exact and_iff_left List.not_mem_nil

/-! ## Leaving out repetitions among neighbours -/

@[simp] theorem mem_withoutRepeats {name : String} {names : List String} :
    name ∈ withoutRepeats names ↔ name ∈ names := by
  fun_induction withoutRepeats names with
  | case1 => rfl
  | case2 => rfl
  | case3 next rest ih =>
    rw [ih, List.mem_cons (a := name) (b := next) (l := next :: rest)]
    exact ⟨Or.inr, fun h => h.elim (fun e => e ▸ List.mem_cons_self) id⟩
  | case4 first next rest hne ih => rw [List.mem_cons, ih, ← List.mem_cons]

/-- Names that ascend and are left once each ascend strictly. -/
theorem pairwise_withoutRepeats {names : List String} (h : names.Pairwise (· ≤ ·)) :
    (withoutRepeats names).Pairwise (· < ·) := by
  fun_induction withoutRepeats names with
  | case1 => exact List.Pairwise.nil
  | case2 name => exact List.pairwise_singleton _ name
  | case3 next rest ih => exact ih h.tail
  | case4 first next rest hne ih =>
    obtain ⟨hfirst, htail⟩ := List.pairwise_cons.1 h
    refine List.pairwise_cons.2 ⟨fun name hname => ?_, ih htail⟩
    -- `first` is below its neighbour, and that is not above any name that follows
    have hlt : first < next := lt_of_le_of_ne (hfirst next List.mem_cons_self) hne
    rcases List.mem_cons.1 (mem_withoutRepeats.1 hname) with rfl | hrest
    · exact hlt
    · exact lt_of_lt_of_le hlt ((List.pairwise_cons.1 htail).1 name hrest)

/-! ## The merged list -/

theorem mem_merged {name : String} {resident : Option (List String)} {loadable : List String} :
    name ∈ merged resident loadable ↔ name ∈ loadable ∨ ∃ names ∈ resident, name ∈ names := by
  cases resident with
  | none => simp [merged]
  | some names => simp [merged, or_comm]

theorem pairwise_merged (resident : Option (List String)) (loadable : List String) :
    (merged resident loadable).Pairwise (· < ·) :=
  pairwise_withoutRepeats (pairwise_sorted _)

/-- Two lists that ascend strictly and have the same names are one. -/
theorem eq_of_pairwise_lt {l m : List String} (hl : l.Pairwise (· < ·)) (hm : m.Pairwise (· < ·))
    (h : ∀ name, name ∈ l ↔ name ∈ m) : l = m := by
  have hp : l.Perm m := (List.perm_ext_iff_of_nodup (hl.imp ne_of_lt) (hm.imp ne_of_lt)).2 h
  exact hp.eq_of_pairwise (fun _ _ _ _ hab hba => absurd hab (lt_asymm hba)) hl hm

end Names

namespace Sources

/-- The name is on the class path or that of a class in the active workspace. -/
def Lists (s : Sources) (name : String) : Prop :=
  name ∈ s.classPath.names ∨ ∃ w ∈ s.active, name ∈ w.residentNames

@[simp] theorem mem_classNames {s : Sources} {name : String} :
    name ∈ s.classNames ↔ s.Lists name := by
  rw [classNames, Names.mem_merged, Lists]
  simp

theorem pairwise_classNames (s : Sources) : s.classNames.Pairwise (· < ·) :=
  Names.pairwise_merged _ _

/-- The list of names is the one list that ascends strictly and has the names of both sources. -/
theorem classNames_eq {s : Sources} {names : List String} (h : names.Pairwise (· < ·))
    (hmem : ∀ name, s.Lists name ↔ name ∈ names) : s.classNames = names :=
  Names.eq_of_pairwise_lt s.pairwise_classNames h fun name => by rw [mem_classNames, hmem]

/-- Names that ascend strictly are the list if they are those of both sources put together. -/
theorem classNames_eq_of_perm {s : Sources} {names : List String} (h : names.Pairwise (· < ·))
    (hperm : (s.classPath.names ++ s.active.elim [] Workspace.residentNames).Perm names) :
    s.classNames = names := by
  refine classNames_eq h fun name => ?_
  rw [← hperm.mem_iff, List.mem_append, Lists]
  cases s.active <;> simp

/-- The list of names only depends on which names there are. -/
theorem classNames_congr {s t : Sources} (h : ∀ name, s.Lists name ↔ t.Lists name) :
    s.classNames = t.classNames :=
  classNames_eq t.pairwise_classNames fun name => by rw [mem_classNames, h]

end Sources

end JvmCompletion
