import JvmCompletion.Proofs.Members
import JvmCompletion.Proofs.MergedNames

/-!
# Listed names and known owners

The list of class names holds internal forms, the classes of the runtime are looked up by binary
name, and those of a workspace by the name that they have. Whichever way the packages in a name are
separated, the two sides agree: of the names in the list those have members that are resident in the
active workspace or belong to a class that the runtime was given. The others were added to the class
path as names alone.
-/

namespace JvmCompletion

namespace Sources

theorem isSome_resident?_iff {s : Sources} {name : String} :
    (s.resident? name).isSome ↔ ∃ w ∈ s.active, name ∈ w.residentNames := by
  rw [resident?]
  cases s.active with
  | none => simp
  | some w => simp [Workspace.isSome_class?_iff]

/-- An owner is known to one of the sources, by its name without the blanks at the edges. -/
theorem isSome_signatures?_iff {s : Sources} {owner : String} {kind : MemberKind} :
    (s.signatures? owner kind).isSome ↔
      Text.trim owner ≠ "" ∧
        ((∃ w ∈ s.active, Text.trim owner ∈ w.residentNames) ∨
          (s.classPath.load? (ClassName.toBinary (Text.trim owner))).isSome) := by
  rw [signatures?_eq, ← isSome_resident?_iff]
  by_cases hblank : Text.trim owner = ""
  · simp [hblank]
  · simp [hblank]

end Sources

theorem ReflectedClass.isSome_lastNamed?_iff {name : String} {added : List ReflectedClass} :
    (lastNamed? name added).isSome ↔
      ∃ c ∈ added, ClassName.toInternal c.name = ClassName.toInternal name := by
  simp [lastNamed?, List.find?_isSome, ClassName.toBinary_eq_iff]

namespace Session

/-- Every name that was added to the class path without a class, those that it was made of first,
then those that the steps have added. -/
def bareNames (names : List String) (past : List Step) : List String :=
  names ++ past.filterMap Step.bareName?

section History

variable (names : List String) (classes : List ReflectedClass)
  (workspaces : List (WorkspaceId × List ClassFile)) (active : Option WorkspaceId)
  (past : List Step)

/-- The class path lists the internal forms of the names and of the classes that were added to it,
and nothing else. -/
theorem mem_names_after_ofLists {name : String} :
    name ∈ ((ofLists names classes workspaces active).after past).classPath.names ↔
      (∃ bare ∈ bareNames names past, ClassName.toInternal bare = name) ∨
        ∃ c ∈ added classes past, ClassName.toInternal c.name = name := by
  have hstart : (ofLists names classes workspaces active).classPath.names =
      names.map ClassName.toInternal ++ classes.map fun c => ClassName.toInternal c.name :=
    ClassPath.names_ofLists names classes
  rw [names_after, hstart]
  simp only [bareNames, added, List.mem_append, List.mem_map, List.mem_filterMap,
    Step.listed?_eq_some_iff]
  constructor
  · rintro ((⟨bare, hbare, rfl⟩ | ⟨c, hc, rfl⟩) | ⟨step, hstep, ⟨bare, hbare, rfl⟩ | ⟨c, hc, rfl⟩⟩)
    · exact Or.inl ⟨bare, Or.inl hbare, rfl⟩
    · exact Or.inr ⟨c, Or.inl hc, rfl⟩
    · exact Or.inl ⟨bare, Or.inr ⟨step, hstep, hbare⟩, rfl⟩
    · exact Or.inr ⟨c, Or.inr ⟨step, hstep, hc⟩, rfl⟩
  · rintro (⟨bare, hbare | ⟨step, hstep, hbare⟩, rfl⟩ | ⟨c, hc | ⟨step, hstep, hc⟩, rfl⟩)
    · exact Or.inl (Or.inl ⟨bare, hbare, rfl⟩)
    · exact Or.inr ⟨step, hstep, Or.inl ⟨bare, hbare, rfl⟩⟩
    · exact Or.inl (Or.inr ⟨c, hc, rfl⟩)
    · exact Or.inr ⟨step, hstep, Or.inr ⟨c, hc, rfl⟩⟩

/-- A name on the class path is its own internal form. -/
theorem toInternal_of_mem_names_after {name : String}
    (h : name ∈ ((ofLists names classes workspaces active).after past).classPath.names) :
    ClassName.toInternal name = name := by
  rcases (mem_names_after_ofLists names classes workspaces active past).1 h with
    ⟨bare, -, rfl⟩ | ⟨c, -, rfl⟩
  · exact ClassName.toInternal_toInternal bare
  · exact ClassName.toInternal_toInternal c.name

/-- In every session, the names in the list that is or would be built have members to complete
exactly if they are resident in the active workspace or the internal form of the name of a class
that the runtime was given. Any other name in the list was added to the class path by itself, and
nothing is found for it. -/
theorem resolved_iff_resident_or_added (j : Nat) (name : String) (kind : MemberKind) :
    let now := (ofLists names classes workspaces active).after past
    let told := (now.step (.resolve j name kind)).1
    let known := (∃ w ∈ now.sources.active, name ∈ w.residentNames) ∨
      ∃ c ∈ added classes past, ClassName.toInternal c.name = name
    j < now.completers.length → name ∈ now.sources.classNames → name ≠ "" →
      Text.trim name = name →
      ((∃ list, told.result = .signatures (some list)) ↔ known) ∧
        (¬ known → told.result = .signatures none ∧
          ∃ bare ∈ bareNames names past, ClassName.toInternal bare = name) := by
  intro now told known hj hlisted hne htrim
  have htold : told.result = .signatures (now.sources.signatures? name kind) := by
    have h := congrArg Report.result (step_resolve hj name kind)
    exact h
  have hloadable : (now.sources.classPath.load? (ClassName.toBinary name)).isSome ↔
      ∃ c ∈ added classes past, ClassName.toInternal c.name = ClassName.toInternal name := by
    rw [load?_after_ofLists, ReflectedClass.isSome_lastNamed?_iff]
  have hsignatures : (now.sources.signatures? name kind).isSome ↔ known := by
    rw [Sources.isSome_signatures?_iff, htrim, hloadable]
    constructor
    · rintro ⟨-, hresident | hadded⟩
      · exact Or.inl hresident
      · -- a name that is only on the class path is in internal form already
        rcases Sources.mem_classNames.1 hlisted with hpath | hresident
        · rw [toInternal_of_mem_names_after names classes workspaces active past hpath] at hadded
          exact Or.inr hadded
        · exact Or.inl hresident
    · rintro (hresident | ⟨c, hc, rfl⟩)
      · exact ⟨hne, Or.inl hresident⟩
      · exact ⟨hne, Or.inr ⟨c, hc, (ClassName.toInternal_toInternal _).symm⟩⟩
  constructor
  · rw [htold, ← hsignatures, Option.isSome_iff_exists]
    simp
  · intro hunknown
    have hnone : now.sources.signatures? name kind = none := by
      rw [← Option.not_isSome_iff_eq_none, hsignatures]
      exact hunknown
    refine ⟨by rw [htold, hnone], ?_⟩
    rcases Sources.mem_classNames.1 hlisted with hpath | hresident
    · rcases (mem_names_after_ofLists names classes workspaces active past).1 hpath with
        hbare | hadded
      · exact hbare
      · exact absurd (Or.inr hadded) hunknown
    · exact absurd (Or.inl hresident) hunknown

end History

/-- Of two names that are written with dots, the one of a class has members and the one that was
added by itself has none. -/
theorem resolved_iff_resident_or_added_mixed_separators :
    let start := ofLists ["b.C"] [] [("w", [⟨"v/W", [], []⟩])] (some "w")
    let now := start.after [.names 0, .addClass ⟨"x.y/Z", [⟨"run", [], "void"⟩], []⟩]
    0 < now.completers.length ∧
      ("x/y/Z" ∈ now.sources.classNames ∧ "x/y/Z" ≠ "" ∧ Text.trim "x/y/Z" = "x/y/Z" ∧
        ∃ list, (now.step (.resolve 0 "x/y/Z" .method)).1.result = .signatures (some list)) ∧
      ("b/C" ∈ now.sources.classNames ∧ "b/C" ≠ "" ∧ Text.trim "b/C" = "b/C" ∧
        (now.step (.resolve 0 "b/C" .method)).1.result = .signatures none) := by
  intro start now
  have hj : 0 < now.completers.length := by decide
  have hz : ClassName.toInternal "x.y/Z" = "x/y/Z" := by decide +kernel
  have hc : ClassName.toInternal "b.C" = "b/C" := by decide +kernel
  have hlisted : ∀ {name}, name ∈ now.classPath.names → name ∈ now.sources.classNames :=
    fun h => Sources.mem_classNames.2 (Or.inl h)
  have hclass : "x/y/Z" ∈ now.sources.classNames :=
    hlisted ((mem_names_after_ofLists ..).2 (Or.inr ⟨_, List.mem_singleton_self _, hz⟩))
  have hbare : "b/C" ∈ now.sources.classNames :=
    hlisted ((mem_names_after_ofLists ..).2 (Or.inl ⟨_, List.mem_singleton_self _, hc⟩))
  have known := fun name => resolved_iff_resident_or_added ["b.C"] []
    [("w", [⟨"v/W", [], []⟩])] (some "w")
    [.names 0, .addClass ⟨"x.y/Z", [⟨"run", [], "void"⟩], []⟩] 0 name .method hj
  refine ⟨hj, ⟨hclass, by decide, by decide, ?_⟩, hbare, by decide, by decide, ?_⟩
  · refine (known "x/y/Z" hclass (by decide) (by decide)).1.2 (Or.inr ?_)
    exact ⟨_, List.mem_singleton_self _, hz⟩
  · refine ((known "b/C" hbare (by decide) (by decide)).2 ?_).1
    rintro (⟨w, hw, hresident⟩ | ⟨c, hadded, hname⟩)
    · obtain rfl : Workspace.ofList "w" [⟨"v/W", [], []⟩] = w := Option.some.inj hw
      exact absurd hresident (by decide)
    · obtain rfl := List.mem_singleton.1 hadded
      exact absurd (hz.symm.trans hname) (by decide)

end Session

end JvmCompletion
