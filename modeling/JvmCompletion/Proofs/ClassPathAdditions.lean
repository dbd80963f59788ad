import JvmCompletion.ClassPath

/-!
# The names and the classes of a class path

A class path keeps its names in one form and its classes under the other, and what is added to it
goes into the first store or into both. They stay in step whatever is added: `InStep` holds of the
class path without classes and is preserved by each addition. What the two stores hold is read off
the additions in `names_and_classes_in_step`.
-/

namespace JvmCompletion

theorem ClassName.not_mem_toInternal (name : String) : '.' ∉ (toInternal name).toList :=
  toInternal_eq_self_iff.1 (toInternal_toInternal name)

theorem ClassName.not_mem_toBinary (name : String) : '/' ∉ (toBinary name).toList := by
  rw [toList_toBinary, List.mem_map]
  rintro ⟨c, -, hc⟩
  split at hc
  · exact absurd hc (by decide)
  · rename_i hne
    exact hne hc

/-- A search from the back stops at the last element that is a hit. -/
theorem findSome?_reverse_eq_some_iff {α β : Type} {hit : α → Option β} {items : List α} {b : β} :
    items.reverse.findSome? hit = some b ↔
      ∃ before a after, items = before ++ a :: after ∧ hit a = some b ∧
        ∀ later ∈ after, hit later = none := by
  -- What comes later is met first, so the parts change places.
  rw [List.findSome?_eq_some_iff]
  constructor
  · rintro ⟨after, a, before, hreverse, ha, hafter⟩
    refine ⟨before.reverse, a, after.reverse, ?_, ha, fun later hlater => ?_⟩
    · simpa using congrArg List.reverse hreverse
    · exact hafter later (List.mem_reverse.1 hlater)
  · rintro ⟨before, a, after, rfl, ha, hafter⟩
    refine ⟨after.reverse, a, before.reverse, by simp, ha, fun later hlater => ?_⟩
    exact hafter later (List.mem_reverse.1 hlater)

namespace ClassPath

/-- What is added to a class path at one time. -/
inductive Addition where
  /-- A class of which only the name is known. -/
  | bare (name : String)
  /-- A class that reflection knows. -/
  | known (c : ReflectedClass)

namespace Addition

/-- The name under which something is added, as it is given. -/
def name : Addition → String
  | .bare name => name
  | .known c => c.name

/-- The class that is added under a binary name. -/
def under? (binaryName : String) : Addition → Option ReflectedClass
  | .bare _ => none
  | .known c => if binaryName = ClassName.toBinary c.name then some c else none

@[simp] theorem under?_bare (binaryName name : String) : (bare name).under? binaryName = none := rfl

theorem under?_eq_some_iff {binaryName : String} {a : Addition} {c : ReflectedClass} :
    a.under? binaryName = some c ↔ a = .known c ∧ ClassName.toBinary c.name = binaryName := by
  cases a with
  | bare => simp
  | known d =>
    rw [under?, Option.ite_none_right_eq_some, Option.some_inj, known.injEq]
    constructor
    · rintro ⟨rfl, rfl⟩
      exact ⟨rfl, rfl⟩
    · rintro ⟨rfl, rfl⟩
      exact ⟨rfl, rfl⟩

theorem under?_eq_none_iff {binaryName : String} {a : Addition} :
    a.under? binaryName = none ↔
      ∀ c, a = .known c → ClassName.toBinary c.name ≠ binaryName := by
  simp only [Option.eq_none_iff_forall_ne_some, ne_eq, under?_eq_some_iff, not_and]

end Addition

/-- Adds something to a class path. -/
def add (p : ClassPath) : Addition → ClassPath
  | .bare name => p.addName name
  | .known c => p.addClass c

/-- The class path to which one thing after another was added. -/
def ofAdditions (additions : List Addition) : ClassPath := additions.foldl add empty

/-! ## One addition -/

theorem names_add (p : ClassPath) (a : Addition) :
    (p.add a).names = p.names ++ [ClassName.toInternal a.name] := by
  cases a with
  | bare name => exact names_addName p name
  | known c => exact names_addClass p c

theorem load?_add (p : ClassPath) (a : Addition) (binaryName : String) :
    (p.add a).load? binaryName = (a.under? binaryName).or (p.load? binaryName) := by
  cases a with
  | bare name => exact load?_addName p name binaryName
  | known c =>
    rw [add, load?_addClass, Addition.under?]
    split <;> rfl

/-- The two stores of a class path agree, each in its own form of the names. -/
structure InStep (p : ClassPath) : Prop where
  /-- The names that are listed are internal ones. -/
  no_dot : ∀ name ∈ p.names, '.' ∉ name.toList
  /-- A class is found by the binary form of its own name. -/
  keyed : ∀ binaryName c, p.load? binaryName = some c → ClassName.toBinary c.name = binaryName
  /-- A class that is found is listed. -/
  listed : ∀ binaryName c, p.load? binaryName = some c → ClassName.toInternal binaryName ∈ p.names

theorem inStep_empty : empty.InStep where
  no_dot := by simp [empty]
  keyed := by simp [empty, load?]
  listed := by simp [empty, load?]

theorem InStep.add {p : ClassPath} (h : p.InStep) (a : Addition) : (p.add a).InStep where
  no_dot := by
    intro name hname
    rw [names_add, List.mem_append, List.mem_singleton] at hname
    rcases hname with hold | rfl
    · exact h.no_dot name hold
    · exact ClassName.not_mem_toInternal a.name
  keyed := by
    intro binaryName c hc
    rw [load?_add, Option.or_eq_some_iff] at hc
    rcases hc with hnew | ⟨-, hold⟩
    · exact (Addition.under?_eq_some_iff.1 hnew).2
    · exact h.keyed binaryName c hold
  listed := by
    intro binaryName c hc
    rw [load?_add, Option.or_eq_some_iff] at hc
    rw [names_add, List.mem_append, List.mem_singleton]
    rcases hc with hnew | ⟨-, hold⟩
    · obtain ⟨rfl, rfl⟩ := Addition.under?_eq_some_iff.1 hnew
      exact Or.inr (ClassName.toInternal_toBinary c.name)
    · exact Or.inl (h.listed binaryName c hold)

/-- What is loaded by a name has no slash in that name. -/
theorem InStep.no_slash {p : ClassPath} (h : p.InStep) {binaryName : String} {c : ReflectedClass}
    (hc : p.load? binaryName = some c) : '/' ∉ binaryName.toList := by
  rw [← h.keyed binaryName c hc]
  exact ClassName.not_mem_toBinary c.name

/-! ## Any number of additions -/

theorem names_foldl_add (additions : List Addition) (p : ClassPath) :
    (additions.foldl add p).names =
      p.names ++ additions.map fun a => ClassName.toInternal a.name := by
  induction additions generalizing p with
  | nil => simp
  | cons a rest ih => rw [List.foldl_cons, ih, names_add, List.append_assoc]; rfl

/-- Of all that is added under a name the last class is found. -/
theorem load?_foldl_add (additions : List Addition) (p : ClassPath) (binaryName : String) :
    (additions.foldl add p).load? binaryName =
      (additions.reverse.findSome? (Addition.under? binaryName)).or (p.load? binaryName) := by
  induction additions generalizing p with
  | nil => rfl
  | cons a rest ih =>
    rw [List.foldl_cons, ih, load?_add, List.reverse_cons, List.findSome?_append, Option.or_assoc]
    congr 1
    cases h : a.under? binaryName <;> simp [h]

theorem InStep.foldl_add {p : ClassPath} (h : p.InStep) (additions : List Addition) :
    (additions.foldl ClassPath.add p).InStep := by
  induction additions generalizing p with
  | nil => exact h
  | cons a rest ih => exact ih (h.add a)

theorem names_ofAdditions (additions : List Addition) :
    (ofAdditions additions).names = additions.map fun a => ClassName.toInternal a.name :=
  names_foldl_add additions empty

theorem load?_ofAdditions (additions : List Addition) (binaryName : String) :
    (ofAdditions additions).load? binaryName =
      additions.reverse.findSome? (Addition.under? binaryName) :=
  (load?_foldl_add additions empty binaryName).trans Option.or_none

theorem isSome_load?_ofAdditions_iff {additions : List Addition} {binaryName : String} :
    ((ofAdditions additions).load? binaryName).isSome ↔
      ∃ c, .known c ∈ additions ∧ ClassName.toBinary c.name = binaryName := by
  rw [load?_ofAdditions, List.isSome_findSome?]
  simp only [List.mem_reverse, List.any_eq_true, Option.isSome_iff_exists,
    Addition.under?_eq_some_iff]
  constructor
  · rintro ⟨_, hmem, c, rfl, hname⟩
    exact ⟨c, hmem, hname⟩
  · rintro ⟨c, hmem, hname⟩
    exact ⟨_, hmem, c, rfl, hname⟩

theorem load?_ofAdditions_eq_some_iff {additions : List Addition} {binaryName : String}
    {c : ReflectedClass} :
    (ofAdditions additions).load? binaryName = some c ↔
      ∃ before after, additions = before ++ .known c :: after ∧
        ClassName.toBinary c.name = binaryName ∧
        ∀ later, .known later ∈ after → ClassName.toBinary later.name ≠ binaryName := by
  rw [load?_ofAdditions, findSome?_reverse_eq_some_iff]
  simp only [Addition.under?_eq_some_iff, Addition.under?_eq_none_iff]
  constructor
  · rintro ⟨before, _, after, rfl, ⟨rfl, hname⟩, hafter⟩
    exact ⟨before, after, rfl, hname, fun later hlater => hafter _ hlater later rfl⟩
  · rintro ⟨before, after, rfl, hname, hafter⟩
    refine ⟨before, _, after, rfl, ⟨rfl, hname⟩, ?_⟩
    rintro _ hlater later rfl
    exact hafter later hlater

/-- A name without a class makes no difference to what is loaded, wherever it is added. -/
theorem load?_ofAdditions_bare (before after : List Addition) (name binaryName : String) :
    (ofAdditions (before ++ .bare name :: after)).load? binaryName =
      (ofAdditions (before ++ after)).load? binaryName := by
  simp [load?_ofAdditions, List.findSome?_cons]

/-- The names on a class path are those of all that was added to it, one for each addition and in
their order, in internal form. A class is loaded by a binary name exactly if one of that name was
added, in whatever spelling, and it is the last one, as it was given. The name by which a class is
loaded has no slash in it and is listed in internal form. A name that is added without a class makes
no difference to what is loaded, wherever it stands among the additions. -/
theorem names_and_classes_in_step (additions : List Addition) :
    let p := ofAdditions additions
    (p.names = additions.map (fun a => ClassName.toInternal a.name) ∧
      ∀ name ∈ p.names, '.' ∉ name.toList) ∧
    (∀ binaryName, (p.load? binaryName).isSome ↔
      ∃ c, .known c ∈ additions ∧ ClassName.toBinary c.name = binaryName) ∧
    (∀ binaryName c, p.load? binaryName = some c ↔
      ∃ before after, additions = before ++ .known c :: after ∧
        ClassName.toBinary c.name = binaryName ∧
        ∀ later, .known later ∈ after → ClassName.toBinary later.name ≠ binaryName) ∧
    (∀ binaryName, (p.load? binaryName).isSome →
      '/' ∉ binaryName.toList ∧ ClassName.toInternal binaryName ∈ p.names) ∧
    ∀ before after name binaryName, additions = before ++ after →
      (ofAdditions (before ++ .bare name :: after)).load? binaryName = p.load? binaryName := by
  intro p
  have hstep : p.InStep := inStep_empty.foldl_add additions
  refine ⟨⟨names_ofAdditions additions, hstep.no_dot⟩, fun _ => isSome_load?_ofAdditions_iff,
    fun _ _ => load?_ofAdditions_eq_some_iff, fun binaryName hsome => ?_, ?_⟩
  · obtain ⟨c, hc⟩ := Option.isSome_iff_exists.1 hsome
    exact ⟨hstep.no_slash hc, hstep.listed binaryName c hc⟩
  · rintro before after name binaryName rfl
    exact load?_ofAdditions_bare before after name binaryName

/-- Three spellings of one name are listed three times, and of the two classes among them the later
one is loaded, by the binary name alone. -/
theorem names_and_classes_in_step_of_one_name :
    let first : ReflectedClass := ⟨"a.b/C", [], [⟨"x", "int"⟩]⟩
    let second : ReflectedClass := ⟨"a/b.C", [], [⟨"y", "int"⟩]⟩
    let additions : List Addition := [.known first, .bare "x.Y", .known second, .bare "a.b.C"]
    let p := ofAdditions additions
    (p.names = ["a/b/C", "x/Y", "a/b/C", "a/b/C"] ∧ p.load? "a.b.C" = some second ∧
        p.load? "x.Y" = none ∧ p.load? "a/b/C" = none) ∧
      ('/' ∉ "a.b.C".toList ∧ ClassName.toInternal "a.b.C" ∈ p.names) ∧
      (ofAdditions (additions ++ [.bare "a.b.C"])).load? "a.b.C" = some second := by
  intro first second additions p
  have hfirst : ClassName.toBinary first.name = "a.b.C" := by cbv
  have hsecond : ClassName.toBinary second.name = "a.b.C" := by cbv
  obtain ⟨⟨hnames, -⟩, hsome, hlast, hlisted, hbare⟩ := names_and_classes_in_step additions
  have hloaded : p.load? "a.b.C" = some second := by
    refine (hlast "a.b.C" second).2 ⟨[.known first, .bare "x.Y"], [.bare "a.b.C"], rfl, hsecond, ?_⟩
    simp
  have habsent : ∀ binaryName, binaryName ≠ "a.b.C" → p.load? binaryName = none := by
    intro binaryName hne
    rw [← Option.not_isSome_iff_eq_none, hsome]
    rintro ⟨c, hc, rfl⟩
    have hclass : c = first ∨ c = second := by simpa [additions] using hc
    rcases hclass with rfl | rfl
    · exact hne hfirst
    · exact hne hsecond
  have hlist : p.names = ["a/b/C", "x/Y", "a/b/C", "a/b/C"] := by
    rw [hnames]
    cbv
  refine ⟨⟨hlist, hloaded, habsent _ (by decide), habsent _ (by decide)⟩,
    hlisted "a.b.C" (Option.isSome_of_eq_some hloaded), ?_⟩
  exact (hbare additions [] "a.b.C" "a.b.C" (List.append_nil _).symm).trans hloaded

/-- A class path made of lists is one to which the names were added first and then the classes. -/
theorem ofLists_eq_ofAdditions (names : List String) (classes : List ReflectedClass) :
    ofLists names classes = ofAdditions (names.map .bare ++ classes.map .known) := by
  rw [ofLists, ofAdditions, List.foldl_append, List.foldl_map, List.foldl_map]
  rfl

end ClassPath

end JvmCompletion
