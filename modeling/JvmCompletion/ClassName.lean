/-!
# The two spellings of a class name

A class is known by its binary name, whose packages are separated by dots (`java.util.Map$Entry`),
and by its internal form, which has slashes in their place (`java/util/Map$Entry`). The runtime
speaks of binary names, class files and descriptors of internal forms.

Both functions replace one character and leave the rest alone, so a name that mixes the two
separators ends up with one of them.
-/

namespace JvmCompletion.ClassName

/-- The internal form of a class name: every dot becomes a slash. -/
def toInternal (name : String) : String := name.map fun c => if c = '.' then '/' else c

/-- The binary form of a class name: every slash becomes a dot. -/
def toBinary (name : String) : String := name.map fun c => if c = '/' then '.' else c

@[simp] theorem toList_toInternal (name : String) :
    (toInternal name).toList = name.toList.map fun c => if c = '.' then '/' else c :=
  String.toList_map

@[simp] theorem toList_toBinary (name : String) :
    (toBinary name).toList = name.toList.map fun c => if c = '/' then '.' else c :=
  String.toList_map

/-- The internal form only depends on the binary form. -/
theorem toInternal_toBinary (name : String) : toInternal (toBinary name) = toInternal name := by
  apply String.toList_inj.1
  simp only [toList_toInternal, toList_toBinary, List.map_map]
  refine List.map_congr_left fun c _ => ?_
  by_cases hs : c = '/'
  · subst hs; decide
  · simp [hs]

/-- The binary form only depends on the internal form. -/
theorem toBinary_toInternal (name : String) : toBinary (toInternal name) = toBinary name := by
  apply String.toList_inj.1
  simp only [toList_toInternal, toList_toBinary, List.map_map]
  refine List.map_congr_left fun c _ => ?_
  by_cases hd : c = '.'
  · subst hd; decide
  · simp [hd]

/-- Two names have one binary form exactly if they have one internal form. -/
theorem toBinary_eq_iff {first second : String} :
    toBinary first = toBinary second ↔ toInternal first = toInternal second := by
  constructor
  · intro h
    rw [← toInternal_toBinary first, h, toInternal_toBinary]
  · intro h
    rw [← toBinary_toInternal first, h, toBinary_toInternal]

@[simp] theorem toInternal_toInternal (name : String) :
    toInternal (toInternal name) = toInternal name :=
  toBinary_eq_iff.1 (toBinary_toInternal name)

/-- A name is its own internal form exactly if no dot is in it. -/
theorem toInternal_eq_self_iff {name : String} : toInternal name = name ↔ '.' ∉ name.toList := by
  constructor
  · intro h hdot
    rw [← h, toList_toInternal, List.mem_map] at hdot
    obtain ⟨c, -, hc⟩ := hdot
    split at hc
    · exact absurd hc (by decide)
    · rename_i hne
      exact hne hc
  · intro h
    apply String.toList_inj.1
    rw [toList_toInternal]
    refine (List.map_congr_left fun c hc => if_neg ?_).trans (List.map_id _)
    rintro rfl
    exact h hc

end JvmCompletion.ClassName
