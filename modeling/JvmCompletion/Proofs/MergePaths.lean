import JvmCompletion.Proofs.MergedNames
import Mathlib.Data.List.Destutter

/-!
# The two ways of merging names

While a workspace is active, its names and those of the class path are joined before they are
sorted, and the join lets each name through only where it occurs first. Without a workspace the
names of the class path are sorted as they come. What follows is the same either way, a pass that
leaves out each name that equals its neighbour: it has nothing to do after the join, and without one
it does all that the join would have done (`withoutRepeats_sorted`). The workspace therefore makes
no difference to the list if the class path has its names already.
-/

namespace JvmCompletion

namespace Names

/-! ## The join -/

/-- It does not matter in which order and how often names were seen. -/
theorem firstOccurrences_congr {seen seen' : List String} (names : List String)
    (h : ∀ name, name ∈ seen ↔ name ∈ seen') :
    firstOccurrences seen names = firstOccurrences seen' names := by
  induction names generalizing seen seen' with
  | nil => rfl
  | cons name rest ih =>
    have hcons : ∀ other, other ∈ name :: seen ↔ other ∈ name :: seen' := by
      intro other
      rw [List.mem_cons, List.mem_cons, h]
    rw [firstOccurrences, firstOccurrences, ih h, ih hcons]
    exact if_congr (h name) rfl rfl

/-- A name is let through at a position if it was not seen at first and does not occur at an earlier
position. -/
theorem firstOccurrences_eq_filter (seen names : List String) :
    firstOccurrences seen names =
      (names.zipIdx.filter fun entry => entry.1 ∉ seen ++ names.take entry.2).map Prod.fst := by
  induction names generalizing seen with
  | nil => rfl
  | cons name rest ih =>
    -- beyond the head, the head counts as seen whether it was let through or not
    have hrest : firstOccurrences (name :: seen) rest =
        ((rest.zipIdx 1).filter fun entry =>
          entry.1 ∉ seen ++ (name :: rest).take entry.2).map Prod.fst := by
      rw [ih, List.zipIdx_succ, List.filter_map, List.map_map]
      refine congrArg (List.map Prod.fst) (List.filter_congr fun entry _ => ?_)
      refine decide_eq_decide.2 (not_congr ?_)
      simp only [List.mem_append, List.mem_cons, List.take_succ_cons]
      exact or_assoc.trans or_left_comm
    rw [List.zipIdx_cons, Nat.zero_add]
    by_cases hseen : name ∈ seen
    · have hsame : ∀ other, other ∈ seen ↔ other ∈ name :: seen := by
        intro other
        rw [List.mem_cons]
        exact ⟨Or.inr, fun hother => hother.elim (fun e => e ▸ hseen) id⟩
      rw [firstOccurrences, if_pos hseen, firstOccurrences_congr rest hsame, hrest,
        List.filter_cons_of_neg (by simpa using hseen)]
    · rw [firstOccurrences, if_neg hseen, hrest, List.filter_cons_of_pos (by simpa using hseen),
        List.map_cons]

theorem nodup_firstOccurrences (seen names : List String) :
    (firstOccurrences seen names).Nodup := by
  induction names generalizing seen with
  | nil => exact List.nodup_nil
  | cons name rest ih =>
    rw [firstOccurrences]
    split
    · exact ih seen
    · refine List.nodup_cons.2 ⟨fun hmem => ?_, ih (name :: seen)⟩
      exact (mem_firstOccurrences.1 hmem).2 List.mem_cons_self

/-! ## The pass over neighbours -/

theorem withoutRepeats_eq_destutter (names : List String) :
    withoutRepeats names = names.destutter (· ≠ ·) := by
  fun_induction withoutRepeats names with
  | case1 => rfl
  | case2 => rfl
  | case3 next rest ih => rw [ih, List.destutter_cons_cons, if_neg (not_not.2 rfl)]; rfl
  | case4 first next rest hne ih => rw [ih, List.destutter_cons_cons, if_pos hne]; rfl

/-- Nothing is left out exactly if no two neighbours are equal. -/
theorem withoutRepeats_eq_self_iff {names : List String} :
    withoutRepeats names = names ↔ names.IsChain (· ≠ ·) := by
  rw [withoutRepeats_eq_destutter, List.destutter_eq_self_iff]

theorem pairwise_sorted_of_nodup {names : List String} (h : names.Nodup) :
    (sorted names).Pairwise (· < ·) := by
  have hne : (sorted names).Nodup := (sorted_perm names).nodup_iff.2 h
  exact (pairwise_sorted names).imp₂ (fun _ _ => lt_of_le_of_ne) hne

theorem withoutRepeats_sorted_of_nodup {names : List String} (h : names.Nodup) :
    withoutRepeats (sorted names) = sorted names := by
  rw [withoutRepeats_eq_self_iff]
  exact ((pairwise_sorted_of_nodup h).imp ne_of_lt).isChain

/-- Sorting brings all occurrences of a name together, so what the pass leaves after it are the
names that a join would have let through before it. -/
theorem withoutRepeats_sorted (names : List String) :
    withoutRepeats (sorted names) = sorted (firstOccurrences [] names) := by
  refine eq_of_pairwise_lt (pairwise_withoutRepeats (pairwise_sorted names))
    (pairwise_sorted_of_nodup (nodup_firstOccurrences [] names)) fun name => ?_
  rw [mem_withoutRepeats, mem_sorted, mem_sorted, mem_firstOccurrences]
  exact (and_iff_left List.not_mem_nil).symm

/-! ## Both ways -/

theorem nodup_joined (first second : List String) : (joined first second).Nodup :=
  nodup_firstOccurrences [] (first ++ second)

/-- With a workspace or without, the names are joined and then sorted: no workspace is as good as
one without classes. -/
theorem merged_eq_sorted_joined (resident : Option (List String)) (loadable : List String) :
    merged resident loadable = sorted (joined (resident.getD []) loadable) := by
  cases resident with
  | none => exact withoutRepeats_sorted loadable
  | some names => exact withoutRepeats_sorted_of_nodup (nodup_joined names loadable)

/-- Names that the class path has already make no difference. -/
theorem merged_of_subset {resident loadable : List String}
    (h : ∀ name ∈ resident, name ∈ loadable) :
    merged (some resident) loadable = merged none loadable := by
  refine eq_of_pairwise_lt (pairwise_merged _ _) (pairwise_merged _ _) fun name => ?_
  rw [mem_merged, mem_merged]
  simpa using h name

/-- The join of two lists keeps of each name in them the first occurrence and no other. Once it has
been sorted, nothing is left to do for the pass that follows, which in any list leaves out only what
equals its neighbour. Where there is no workspace the names of the class path are sorted without a
join, and the pass leaves one of each. The two lists are one if the class path has all the names of
the workspace. -/
theorem merge_paths_agree (resident loadable : List String) :
    let all := resident ++ loadable
    let kept := joined resident loadable
    (kept = (all.zipIdx.filter fun entry => entry.1 ∉ all.take entry.2).map Prod.fst ∧
        ∀ name, kept.count name = if name ∈ all then 1 else 0) ∧
      (∀ names, withoutRepeats names = names.destutter (· ≠ ·)) ∧
      (withoutRepeats (sorted kept) = sorted kept ∧
        merged (some resident) loadable = sorted kept) ∧
      (merged none loadable = withoutRepeats (sorted loadable) ∧
        ∀ name, (merged none loadable).count name = if name ∈ loadable then 1 else 0) ∧
      ((∀ name ∈ resident, name ∈ loadable) →
        merged (some resident) loadable = merged none loadable) := by
  intro all kept
  have hkept : kept.Nodup := nodup_joined resident loadable
  refine ⟨⟨?_, fun name => ?_⟩, withoutRepeats_eq_destutter,
    ⟨withoutRepeats_sorted_of_nodup hkept, ?_⟩, ⟨rfl, fun name => ?_⟩, merged_of_subset⟩
  · exact firstOccurrences_eq_filter [] all
  · rw [hkept.count]
    refine if_congr ?_ rfl rfl
    rw [mem_joined, List.mem_append]
  · exact merged_eq_sorted_joined (some resident) loadable
  · have hmerged : (merged none loadable).Nodup := (pairwise_merged none loadable).imp ne_of_lt
    rw [hmerged.count]
    refine if_congr ?_ rfl rfl
    simp [mem_merged]

/-- The names of the workspace come first in the join, although the class path has them all and
repeats one. -/
theorem merge_paths_agree_of_listed_residents :
    let resident := ["c/D", "a/B"]
    let loadable := ["z/Z", "a/B", "c/D", "a/B"]
    (∀ name ∈ resident, name ∈ loadable) ∧
      joined resident loadable = ["c/D", "a/B", "z/Z"] ∧
      merged (some resident) loadable = merged none loadable := by
  intro resident loadable
  have hlisted : ∀ name ∈ resident, name ∈ loadable := by decide
  obtain ⟨-, -, -, -, hsame⟩ := merge_paths_agree resident loadable
  exact ⟨hlisted, by decide, hsame hlisted⟩

end Names

end JvmCompletion
