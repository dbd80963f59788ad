import JvmCompletion.Proofs.KnownNames
import JvmCompletion.Proofs.Selections
import JvmCompletion.Snapshot

/-!
# The classes of a snapshot

A class in a snapshot is got at in two steps: its name is suggested while it is being typed, and its
members are found under the name. What a request says is trimmed, while a class has the name that it
was given. So both steps succeed for the names that have no blanks at their edges, and for the
others `class_entries_completable` says when.
-/

namespace JvmCompletion

/-- Answering a request leaves behind an index that answers with the names of the sources, if it did
so before. -/
theorem Completer.names_index_complete {s : Sources} {index : NameIndex}
    (hindex : index.names s = s.classNames) (r : Request) :
    (complete s index r).index.names s = s.classNames := by
  rw [(index_complete s index r).1]
  split
  · rw [NameIndex.names_refresh, hindex]
  · exact hindex

/-- A completer that sees the same sources all the time answers each of its requests from the names
of these. -/
theorem Completer.getElem?_completeAll {s : Sources} {index : NameIndex}
    (hindex : index.names s = s.classNames) {requests : List Request} {i : Nat} {r : Request}
    (hr : requests[i]? = some r) :
    ∃ later : NameIndex, later.names s = s.classNames ∧
      (completeAll s index requests)[i]? = some (complete s later r).items := by
  induction requests generalizing index i with
  | nil => cases hr
  | cons first rest ih =>
    cases i with
    | zero =>
      obtain rfl : first = r := Option.some.inj hr
      exact ⟨index, hindex, rfl⟩
    | succ i => exact ih (names_index_complete hindex first) hr

namespace Snapshot

variable {s : Snapshot}

/-! ## What is accepted -/

theorem internalNameFault?_eq_none_iff {name : String} :
    internalNameFault? name = none ↔ Text.trim name ≠ "" ∧ '.' ∉ name.toList := by
  rw [Ne, Text.trim_eq_empty_iff, internalNameFault?]
  split
  · simp_all
  · split <;> simp_all

/-- A snapshot is accepted exactly if none of its names is blank and those of the workspace have no
dots in them. -/
theorem validate_eq_ok_iff :
    s.validate = .ok () ↔
      ((∀ name ∈ s.runtime.names, Text.trim name ≠ "") ∧
          ∀ c ∈ s.runtime.classes, Text.trim c.name ≠ "") ∧
        ∀ w ∈ s.workspace, ∀ c ∈ w.classes, Text.trim c.name ≠ "" ∧ '.' ∉ c.name.toList := by
  have hruntime : ¬ (s.runtime.names ++ s.runtime.classes.map (·.name)).any Text.isBlankText ↔
      (∀ name ∈ s.runtime.names, Text.trim name ≠ "") ∧
        ∀ c ∈ s.runtime.classes, Text.trim c.name ≠ "" := by
    simp [Text.trim_eq_empty_iff]
  have hworkspace :
      ((s.workspace.getD {}).classes.map (·.name)).findSome? internalNameFault? = none ↔
        ∀ w ∈ s.workspace, ∀ c ∈ w.classes, Text.trim c.name ≠ "" ∧ '.' ∉ c.name.toList := by
    cases s.workspace <;> simp [internalNameFault?_eq_none_iff]
  rw [← hruntime, ← hworkspace, validate]
  split
  · simp_all
  · dsimp only
    split <;> simp_all

/-! ## What is refused -/

/-- What is wrong with a name as that of a class in a workspace. -/
inductive InternalNameFault (name : String) : NameFault → Prop
  | blank (h : Text.trim name = "") : InternalNameFault name .blank
  | notInternal (h : Text.trim name ≠ "") (hdot : '.' ∈ name.toList) :
      InternalNameFault name (.notInternal name)

/-- What the first fault of a snapshot is. A blank name in the runtime comes before everything in
the workspace, and there the class that is listed first counts. -/
inductive FirstFault (s : Snapshot) : LoadError → Prop
  | name {name : String} (hname : name ∈ s.runtime.names) (h : Text.trim name = "") :
      FirstFault s (.invalidClass .runtime .blank)
  | loadable {c : ReflectedClass} (hc : c ∈ s.runtime.classes) (h : Text.trim c.name = "") :
      FirstFault s (.invalidClass .runtime .blank)
  | resident {w : WorkspacePart} {before after : List ClassFile} {c : ClassFile} {fault : NameFault}
      (hnames : ∀ name ∈ s.runtime.names, Text.trim name ≠ "")
      (hloadable : ∀ c ∈ s.runtime.classes, Text.trim c.name ≠ "")
      (hw : s.workspace = some w) (hclasses : w.classes = before ++ c :: after)
      (hbefore : ∀ b ∈ before, Text.trim b.name ≠ "" ∧ '.' ∉ b.name.toList)
      (hfault : InternalNameFault c.name fault) : FirstFault s (.invalidClass .workspace fault)

theorem internalNameFault?_eq_some_iff {name : String} {fault : NameFault} :
    internalNameFault? name = some fault ↔ InternalNameFault name fault := by
  refine ⟨?_, ?_⟩
  · intro h
    unfold internalNameFault? at h
    split_ifs at h with hblank hdot
    · cases h
      exact .blank (Text.trim_eq_empty_iff.2 hblank)
    · cases h
      exact .notInternal (fun h => hblank (Text.trim_eq_empty_iff.1 h)) hdot
  · rintro (h | ⟨h, hdot⟩)
    · simp [internalNameFault?, Text.trim_eq_empty_iff.1 h]
    · rw [Ne, Text.trim_eq_empty_iff] at h
      simp [internalNameFault?, h, hdot]

theorem findSome?_internalNameFault?_eq_some_iff {fault : NameFault} :
    ((s.workspace.getD {}).classes.map (·.name)).findSome? internalNameFault? = some fault ↔
      ∃ w, s.workspace = some w ∧ ∃ before c after, w.classes = before ++ c :: after ∧
        InternalNameFault c.name fault ∧
          ∀ b ∈ before, Text.trim b.name ≠ "" ∧ '.' ∉ b.name.toList := by
  cases s.workspace with
  | none => simp
  | some w =>
    simp only [Option.getD_some, List.findSome?_map, List.findSome?_eq_some_iff,
      Function.comp_apply, internalNameFault?_eq_some_iff, internalNameFault?_eq_none_iff,
      Option.some.injEq, exists_eq_left']

/-- A snapshot is refused for its first fault. -/
theorem validate_eq_error_iff {e : LoadError} : s.validate = .error e ↔ s.FirstFault e := by
  have hruntime : (s.runtime.names ++ s.runtime.classes.map (·.name)).any Text.isBlankText ↔
      (∃ name ∈ s.runtime.names, Text.trim name = "") ∨
        ∃ c ∈ s.runtime.classes, Text.trim c.name = "" := by
    simp [Text.trim_eq_empty_iff]
  rw [validate]
  split_ifs with hblank
  · rw [hruntime] at hblank
    refine ⟨?_, ?_⟩
    · rintro ⟨⟩
      rcases hblank with ⟨name, hname, h⟩ | ⟨c, hc, h⟩
      · exact .name hname h
      · exact .loadable hc h
    · rintro (_ | _ | ⟨hnames, hloadable⟩)
      · rfl
      · rfl
      · rcases hblank with ⟨name, hname, h⟩ | ⟨c, hc, h⟩
        · exact absurd h (hnames name hname)
        · exact absurd h (hloadable c hc)
  · simp only [hruntime, not_or, not_exists, not_and] at hblank
    obtain ⟨hnames, hloadable⟩ := hblank
    refine ⟨?_, ?_⟩
    · intro h
      dsimp only at h
      split at h
      · rename_i fault hfault
        cases h
        obtain ⟨w, hw, before, c, after, hclasses, hfault, hbefore⟩ :=
          findSome?_internalNameFault?_eq_some_iff.1 hfault
        exact .resident hnames hloadable hw hclasses hbefore hfault
      · cases h
    · rintro (⟨hname, h⟩ | ⟨hc, h⟩ | ⟨-, -, hw, hclasses, hbefore, hfault⟩)
      · exact absurd h (hnames _ hname)
      · exact absurd h (hloadable _ hc)
      · have hfirst := findSome?_internalNameFault?_eq_some_iff.2
          ⟨_, hw, _, _, _, hclasses, hfault, hbefore⟩
        simp [hfirst]

/-- The name is that of a class in the snapshot, as the list of class names has it. -/
def HasEntry (s : Snapshot) (name : String) : Prop :=
  (∃ c ∈ s.runtime.classes, ClassName.toInternal c.name = name) ∨
    ∃ w ∈ s.workspace, ∃ c ∈ w.classes, c.name = name

theorem trim_ne_empty_of_hasEntry (hvalid : s.validate = .ok ()) {name : String}
    (h : s.HasEntry name) : Text.trim name ≠ "" := by
  obtain ⟨⟨-, hruntime⟩, hworkspace⟩ := validate_eq_ok_iff.1 hvalid
  rcases h with ⟨c, hc, rfl⟩ | ⟨w, hw, c, hc, rfl⟩
  · rw [Ne, ClassName.trim_toInternal_eq_empty_iff]
    exact hruntime c hc
  · exact (hworkspace w hw c hc).1

theorem toInternal_trim_of_hasEntry (hvalid : s.validate = .ok ()) {name : String}
    (h : s.HasEntry name) : ClassName.toInternal (Text.trim name) = Text.trim name := by
  have hname : '.' ∉ name.toList := by
    rcases h with ⟨c, -, rfl⟩ | ⟨w, hw, c, hc, rfl⟩
    · exact ClassName.toInternal_eq_self_iff.1 (ClassName.toInternal_toInternal c.name)
    · exact ((validate_eq_ok_iff.1 hvalid).2 w hw c hc).2
  rw [ClassName.toInternal_eq_self_iff]
  intro hdot
  rw [Text.toList_trim] at hdot
  have hstart := (Text.dropBlanksRight_isPrefix _).subset hdot
  exact hname ((List.dropWhile_suffix _).subset hstart)

/-! ## What a completer over the snapshot finds -/

/-- The names on the class path and in the active workspace are those in the snapshot. -/
theorem lists_iff {name : String} :
    s.sources.Lists name ↔
      (∃ bare ∈ s.runtime.names, ClassName.toInternal (Text.trim bare) = name) ∨
        (∃ c ∈ s.runtime.classes, ClassName.toInternal c.name = name) ∨
          ∃ w ∈ s.workspace, ∃ c ∈ w.classes, c.name = name := by
  have hnames : s.sources.classPath.names = _ := ClassPath.names_ofLists _ _
  have hresident : (∃ w ∈ s.sources.active, name ∈ w.residentNames) ↔
      ∃ w ∈ s.workspace, ∃ c ∈ w.classes, c.name = name := by
    simp [sources, activeWorkspace, Workspace.mem_residentNames_ofList]
  rw [Sources.Lists, hresident, hnames, List.mem_append, List.map_map, List.mem_map, List.mem_map,
    or_assoc]
  rfl

theorem lists_of_hasEntry {name : String} (h : s.HasEntry name) : s.sources.Lists name :=
  lists_iff.2 (Or.inr h)

/-- An owner is found if it is the name of a class of the workspace, or stands for one of the
runtime with its packages separated in whichever way. -/
theorem isSome_signatures?_sources_iff {owner : String} {kind : MemberKind} :
    (s.sources.signatures? owner kind).isSome ↔
      Text.trim owner ≠ "" ∧
        ((∃ w ∈ s.workspace, ∃ c ∈ w.classes, c.name = Text.trim owner) ∨
          ∃ c ∈ s.runtime.classes,
            ClassName.toInternal c.name = ClassName.toInternal (Text.trim owner)) := by
  have hloadable : s.sources.classPath.load? (ClassName.toBinary (Text.trim owner)) = _ :=
    ClassPath.load?_ofLists _ _ _
  rw [Sources.isSome_signatures?_iff, hloadable, ReflectedClass.isSome_lastNamed?_iff]
  have hresident : (∃ w ∈ s.sources.active, Text.trim owner ∈ w.residentNames) ↔
      ∃ w ∈ s.workspace, ∃ c ∈ w.classes, c.name = Text.trim owner := by
    simp [sources, activeWorkspace, Workspace.mem_residentNames_ofList]
  rw [hresident]

/-- A class is found under its name exactly if the trimmed name is that of a class. -/
theorem isSome_signatures?_iff_hasEntry_trim (hvalid : s.validate = .ok ()) {name : String}
    (h : s.HasEntry name) (kind : MemberKind) :
    (s.sources.signatures? name kind).isSome ↔ s.HasEntry (Text.trim name) := by
  have hblank := trim_ne_empty_of_hasEntry hvalid h
  rw [isSome_signatures?_sources_iff, toInternal_trim_of_hasEntry hvalid h, HasEntry, or_comm]
  exact and_iff_right hblank

/-- A request for class names is answered with those names that go on from the trimmed text. -/
theorem exists_items_internalName (s : Snapshot) {requests : List Request} {i : Nat}
    {owner : Option String} {typed : String}
    (hr : requests[i]? = some ⟨.internalName, owner, typed⟩) :
    ∃ items, (s.completeAll requests)[i]? = some items ∧
      ∀ name, name ∈ items ↔ Text.trim typed ≠ "" ∧
        s.sources.Lists name ∧ (∃ rest, Text.trim typed ++ rest = name) ∧
          name ≠ Text.trim typed := by
  obtain ⟨later, hlater, hitems⟩ :=
    Completer.getElem?_completeAll (NameIndex.names_empty s.sources) hr
  refine ⟨_, hitems, fun name => ?_⟩
  rw [Completer.items_internalName, hlater]
  by_cases hblank : Text.trim typed = ""
  · simp [hblank]
  · rw [if_neg hblank, Selection.mem_apply_longer, Sources.mem_classNames]
    exact (and_iff_right hblank).symm

/-- The beginnings of a name that does not start with a blank lead to it. -/
theorem mem_items_of_beginning {name typed rest : String} (hlists : s.sources.Lists name)
    (hstart : Text.trimStart name = name) {requests : List Request} {i : Nat}
    {owner : Option String} (hr : requests[i]? = some ⟨.internalName, owner, typed⟩)
    (hname : typed ++ rest = name) (hrest : rest ≠ "") (hblank : Text.trim typed ≠ "") :
    ∃ items, (s.completeAll requests)[i]? = some items ∧ name ∈ items := by
  obtain ⟨items, hitems, hmem⟩ := exists_items_internalName s hr
  obtain ⟨ending, hending⟩ := Text.exists_trim_append typed
  have htyped : Text.trimStart typed = typed := by
    subst hname
    refine (Text.trimStart_append_eq_self_iff ?_ rest).1 hstart
    rintro rfl
    exact hblank (by decide)
  rw [htyped] at hending
  refine ⟨items, hitems, (hmem name).2 ⟨hblank, hlists, ⟨ending ++ rest, ?_⟩, ?_⟩⟩
  · rw [← String.append_assoc, hending, hname]
  · -- the name is longer than the typed text, and that is not shorter than its trimmed form
    intro he
    have hlong := congrArg String.length hname
    have hshort := congrArg String.length hending
    rw [String.length_append] at hlong hshort
    rw [he] at hlong
    exact hrest (String.length_eq_zero_iff.1 (by omega))

/-- Nothing leads to a name that starts with a blank. -/
theorem not_mem_items_of_blank_start {name : String} (hstart : Text.trimStart name ≠ name)
    {requests : List Request} {i : Nat} {owner : Option String} {typed : String}
    (hr : requests[i]? = some ⟨.internalName, owner, typed⟩) :
    ∃ items, (s.completeAll requests)[i]? = some items ∧ name ∉ items := by
  obtain ⟨items, hitems, hmem⟩ := exists_items_internalName s hr
  refine ⟨items, hitems, fun h => hstart ?_⟩
  obtain ⟨hblank, -, ⟨rest, rfl⟩, -⟩ := (hmem name).1 h
  exact (Text.trimStart_append_eq_self_iff hblank rest).2 (Text.trimStart_trim typed)

/-- Each class of an accepted snapshot stands in the list of class names. If its name there does not
start with a blank, it is suggested for every beginning of the name that is not blank, whatever was
requested before. Its members are found under its name if the name without the blanks at its edges
is that of a class too, so in particular if there are none. For a class of the workspace, whose name
is taken as it is given, this is all: if its name starts with a blank it is never suggested, and if
the trimmed name is not that of a class nothing is found under it. -/
theorem class_entries_completable (s : Snapshot) (hvalid : s.validate = .ok ()) :
    (∀ name, s.HasEntry name →
        name ∈ s.sources.classNames ∧
          (Text.trimStart name = name →
            ∀ (requests : List Request) (i : Nat) (owner : Option String) (typed rest : String),
              requests[i]? = some ⟨.internalName, owner, typed⟩ → typed ++ rest = name →
              rest ≠ "" → Text.trim typed ≠ "" →
              ∃ items, (s.completeAll requests)[i]? = some items ∧ name ∈ items) ∧
          (s.HasEntry (Text.trim name) →
            ∀ kind, ∃ list, s.sources.signatures? name kind = some list)) ∧
      ∀ w ∈ s.workspace, ∀ c ∈ w.classes,
        (Text.trimStart c.name ≠ c.name →
          ∀ (requests : List Request) (i : Nat) (owner : Option String) (typed : String),
            requests[i]? = some ⟨.internalName, owner, typed⟩ →
            ∃ items, (s.completeAll requests)[i]? = some items ∧ c.name ∉ items) ∧
        (¬ s.HasEntry (Text.trim c.name) → ∀ kind, s.sources.signatures? c.name kind = none) := by
  refine ⟨fun name hentry => ⟨?_, ?_, ?_⟩, fun w hw c hc => ⟨?_, ?_⟩⟩
  · exact Sources.mem_classNames.2 (lists_of_hasEntry hentry)
  · intro hstart requests i owner typed rest hr hname hrest hblank
    exact mem_items_of_beginning (lists_of_hasEntry hentry) hstart hr hname hrest hblank
  · intro htrim kind
    have hfound := (isSome_signatures?_iff_hasEntry_trim hvalid hentry kind).2 htrim
    exact Option.isSome_iff_exists.1 hfound
  · intro hstart requests i owner typed hr
    exact not_mem_items_of_blank_start hstart hr
  · intro hno kind
    have hentry : s.HasEntry c.name := Or.inr ⟨w, hw, c, hc, rfl⟩
    rw [← Option.not_isSome_iff_eq_none, isSome_signatures?_iff_hasEntry_trim hvalid hentry kind]
    exact hno

/-- A class of the runtime whose name is written with a dot, and two of the workspace, one of them
named like the other but for a blank. -/
theorem class_entries_completable_of_both_parts :
    let s : Snapshot :=
      { runtime := { classes := [⟨"x.Y", [], []⟩] },
        workspace := some { classes := [⟨"a/B", [], []⟩, ⟨" a/B", [], []⟩] } }
    s.validate = .ok () ∧
      (s.HasEntry "x/Y" ∧ "x/Y" ∈ s.sources.classNames ∧
        (∃ items, (s.completeAll [⟨.internalName, none, "x/"⟩])[0]? = some items ∧
          "x/Y" ∈ items) ∧
        ∃ list, s.sources.signatures? "x/Y" .method = some list) ∧
      (∃ items, (s.completeAll [⟨.internalName, none, " a"⟩])[0]? = some items ∧
        " a/B" ∉ items) ∧
      ∃ list, s.sources.signatures? " a/B" .field = some list := by
  intro s
  have hvalid : s.validate = .ok () := by decide
  obtain ⟨hentries, hworkspace⟩ := class_entries_completable s hvalid
  have hruntime : s.HasEntry "x/Y" := Or.inl ⟨_, List.mem_cons_self, by decide +kernel⟩
  have hresident : s.HasEntry "a/B" := Or.inr ⟨_, rfl, _, List.mem_cons_self, rfl⟩
  have hpadded : s.HasEntry " a/B" :=
    Or.inr ⟨_, rfl, _, List.mem_cons_of_mem _ List.mem_cons_self, rfl⟩
  have htrim : Text.trim "x/Y" = "x/Y" := by decide
  have hpaddedTrim : Text.trim " a/B" = "a/B" := by decide
  obtain ⟨hlisted, hoffered, hfound⟩ := hentries "x/Y" hruntime
  refine ⟨hvalid, ⟨hruntime, hlisted, ?_, ?_⟩, ?_, ?_⟩
  · exact hoffered (by decide) _ 0 none "x/" "Y" rfl (by decide) (by decide) (by decide)
  · refine hfound ?_ .method
    rw [htrim]
    exact hruntime
  · exact (hworkspace _ rfl _ (List.mem_cons_of_mem _ List.mem_cons_self)).1 (by decide) _ 0 none
      " a" rfl
  · refine (hentries " a/B" hpadded).2.2 ?_ .field
    rw [hpaddedTrim]
    exact hresident

/-- A class of the workspace with a blank at the start of its name: it is listed, but typing the
start of the name does not lead to it, and neither its methods nor its fields are found. -/
theorem padded_class_entry_unreachable :
    let s : Snapshot :=
      { workspace := some { classes := [⟨" a/B", [⟨"run", "()V"⟩], []⟩] } }
    s.validate = .ok () ∧ s.HasEntry " a/B" ∧ " a/B" ∈ s.sources.classNames ∧
      Text.trim " a" ≠ "" ∧ " a" ++ "/B" = " a/B" ∧
      (s.completeAll [⟨.internalName, none, " a"⟩])[0]? = some [] ∧
      ∀ kind, s.sources.signatures? " a/B" kind = none := by
  intro s
  have hentry : s.HasEntry " a/B" := Or.inr ⟨_, rfl, _, List.mem_cons_self, rfl⟩
  refine ⟨by decide, hentry, Sources.mem_classNames.2 (lists_of_hasEntry hentry), by decide,
    by decide, ?_, ?_⟩
  · decide +kernel
  · rintro (_ | _)
    · decide +kernel
    · decide +kernel

end Snapshot

end JvmCompletion
