import JvmCompletion.Proofs.ByteOrder
import JvmCompletion.Proofs.SourceHistory
import JvmCompletion.Proofs.Trimming

/-!
# Completing members

Members are completed from the sources as they are at the moment of the request, and the sources are
what the history of the session has made of them. `members_from_history` puts the two together: the
signatures for an owner are those of the class that the active workspace has received last under the
name of the owner, else those of the class that was added last to the class path under that name,
and a completer suggests, in order, the ones that begin with what was typed.
-/

namespace JvmCompletion

/-- The kind of symbol that a member of this kind is. -/
def MemberKind.toKind : MemberKind → Kind
  | .method => .method
  | .field => .field

/-! ## Selecting signatures -/

/-- Whatever arrangement names in order are given in, it is sorted to them. -/
theorem Names.sorted_eq_of_perm {l m : List String} (h : l.Perm m) (hm : m.Pairwise (· ≤ ·)) :
    sorted l = m :=
  ((sorted_perm l).trans h).eq_of_pairwise (fun _ _ _ _ hab hba => le_antisymm hab hba)
    (pairwise_sorted l) hm

/-- Two arrangements of the same names are sorted to one list. -/
theorem Names.sorted_congr {l m : List String} (h : l.Perm m) : sorted l = sorted m :=
  sorted_eq_of_perm (h.trans (sorted_perm m).symm) (pairwise_sorted m)

theorem Selection.apply_signature_congr {typed : String} {l m : List String} (h : l.Perm m) :
    (Selection.signature typed).apply l = (Selection.signature typed).apply m :=
  Names.sorted_congr (h.filter _)

theorem Selection.pairwise_apply_signature (typed : String) (candidates : List String) :
    ((Selection.signature typed).apply candidates).Pairwise
      fun a b => Text.bytes a ≤ Text.bytes b := by
  refine (Names.pairwise_sorted _).imp fun {a b} hab => ?_
  rw [← List.not_lt, Text.bytes_lt_iff]
  exact not_lt_of_ge hab

/-! ## Members of the sources as they are -/

namespace Sources

theorem signatures?_eq (s : Sources) (owner : String) (kind : MemberKind) :
    s.signatures? owner kind =
      if Text.trim owner = "" then none
      else ((s.resident? (Text.trim owner)).map (·.signatures kind)).or
        ((s.classPath.load? (ClassName.toBinary (Text.trim owner))).map (·.signatures kind)) := by
  rw [signatures?]
  simp only [Text.trim_eq_empty_iff]
  split
  · rfl
  · cases s.resident? (Text.trim owner) <;> rfl

theorem lookups_eq (s : Sources) (owner : String) :
    s.lookups owner =
      if Text.trim owner = "" ∨ (s.resident? (Text.trim owner)).isSome then []
      else [ClassName.toBinary (Text.trim owner)] := by
  rw [lookups, ite_or]
  simp only [Text.trim_eq_empty_iff]

end Sources

namespace Completer

/-- What a request for members finds and asks the runtime for depends on the sources alone. -/
theorem complete_members (s : Sources) (index : NameIndex) (kind : MemberKind)
    (owner : Option String) (typed : String) :
    (complete s index ⟨kind.toKind, owner, typed⟩).items =
        (if Text.trim typed = "" then []
          else ((s.signatures? (owner.getD "") kind).map
            (Selection.signature (Text.trimStart typed)).apply).getD []) ∧
      (complete s index ⟨kind.toKind, owner, typed⟩).lookups =
        if Text.trim typed = "" then [] else s.lookups (owner.getD "") := by
  have hmembers : complete s index ⟨kind.toKind, owner, typed⟩ =
      completeMembers s index kind (owner.getD "") typed := by
    cases kind <;> rfl
  rw [hmembers, completeMembers]
  simp only [Text.trim_eq_empty_iff]
  by_cases howner : Text.isBlankText (owner.getD "") = true
  · simp [howner, Sources.signatures?, Sources.lookups]
  · cases Text.isBlankText typed <;> simp [howner]

/-- Of its index, an answer depends on the names alone. -/
theorem items_complete_congr {s : Sources} {index index' : NameIndex}
    (h : index.names s = index'.names s) (r : Request) :
    (complete s index r).items = (complete s index' r).items := by
  obtain ⟨kind, owner, typed⟩ := r
  cases kind with
  | internalName => rw [items_of_fromNames rfl, items_of_fromNames rfl, h]
  | descriptor => rw [items_of_fromNames rfl, items_of_fromNames rfl, h]
  | method =>
    exact (complete_members s index .method owner typed).1.trans
      (complete_members s index' .method owner typed).1.symm
  | field =>
    exact (complete_members s index .field owner typed).1.trans
      (complete_members s index' .field owner typed).1.symm

end Completer

namespace Session

/-- A completer resolves an owner in the sources of the session. -/
theorem step_resolve {s : Session} {j : Nat} (hj : j < s.completers.length) (owner : String)
    (kind : MemberKind) :
    (s.step (.resolve j owner kind)).1 =
      ⟨.signatures (s.sources.signatures? owner kind), s.builds, s.sources.lookups owner⟩ := by
  simp only [step, List.getElem?_eq_getElem hj]

/-- A session resolves an owner only if it has the completer that is asked to. -/
theorem signatures?_of_step_resolve {s : Session} {j : Nat} {owner : String} {kind : MemberKind}
    {list : List String}
    (h : (s.step (.resolve j owner kind)).1.result = .signatures (some list)) :
    j < s.completers.length ∧ s.sources.signatures? owner kind = some list := by
  by_cases hj : j < s.completers.length
  · rw [step_resolve hj] at h
    exact ⟨hj, Result.signatures.inj h⟩
  · simp only [step, List.getElem?_eq_none (Nat.le_of_not_lt hj)] at h
    cases h

theorem step_members {s : Session} {j : Nat} (hj : j < s.completers.length) (kind : MemberKind)
    (owner : Option String) (typed : String) :
    (s.step (.complete j ⟨kind.toKind, owner, typed⟩)).1.result =
        .items (if Text.trim typed = "" then []
          else ((s.sources.signatures? (owner.getD "") kind).map
            (Selection.signature (Text.trimStart typed)).apply).getD []) ∧
      (s.step (.complete j ⟨kind.toKind, owner, typed⟩)).1.lookups =
        if Text.trim typed = "" then [] else s.sources.lookups (owner.getD "") := by
  obtain ⟨hitems, hlookups⟩ :=
    Completer.complete_members s.sources (s.index j) kind owner typed
  rw [step, ask_of_lt hj]
  exact ⟨congrArg Result.items hitems, hlookups⟩

/-! ## Members and history -/

/-- A session at its start, over a class path made of names and classes and over workspaces made of
classes. -/
def ofLists (names : List String) (classes : List ReflectedClass)
    (workspaces : List (WorkspaceId × List ClassFile)) (active : Option WorkspaceId) : Session where
  classPath := ClassPath.ofLists names classes
  workspaces := workspaces.map fun entry => Workspace.ofList entry.1 entry.2
  active := active

/-- Every class that a workspace has received, those that it was made of first, then those that the
steps have put into it. -/
def received (workspaces : List (WorkspaceId × List ClassFile)) (past : List Step)
    (id : WorkspaceId) : List ClassFile :=
  (workspaces.lookup id).getD [] ++ past.filterMap (Step.received? id)

/-- Every class that was added to the class path, those that it was made of first, then those that
the steps have added. -/
def added (classes : List ReflectedClass) (past : List Step) : List ReflectedClass :=
  classes ++ past.filterMap Step.added?

theorem workspace?_ofLists (names : List String) (classes : List ReflectedClass)
    (workspaces : List (WorkspaceId × List ClassFile)) (active : Option WorkspaceId)
    (id : WorkspaceId) :
    (ofLists names classes workspaces active).workspace? id =
      (workspaces.lookup id).map (Workspace.ofList id) := by
  have hid : ∀ k l, (Workspace.ofList k l).id = k := fun k l => Workspace.id_foldl_putClass _ _
  simp only [workspace?, ofLists]
  induction workspaces with
  | nil => rfl
  | cons entry rest ih =>
    obtain ⟨k, l⟩ := entry
    rw [List.map_cons, List.find?_cons, List.lookup_cons, hid]
    by_cases hk : k = id
    · subst hk
      simp
    · have hk' : (id == k) = false := beq_false_of_ne (Ne.symm hk)
      simp only [beq_false_of_ne hk, hk']
      exact ih

section History

variable (names : List String) (classes : List ReflectedClass)
  (workspaces : List (WorkspaceId × List ClassFile)) (active : Option WorkspaceId)
  (past : List Step)

/-- The class that the active workspace has under a name is the one it has received last. -/
theorem resident?_after (name : String) :
    let now := (ofLists names classes workspaces active).after past
    now.sources.resident? name =
      now.sources.active.bind fun w =>
        ClassFile.lastNamed? name (received workspaces past w.id) := by
  intro now
  rw [Sources.resident?]
  refine Option.bind_congr fun w hw => ?_
  obtain ⟨id, -, hid⟩ := Option.bind_eq_some_iff.1 hw
  rw [id_of_workspace? hid]
  rw [workspace?_after, workspace?_ofLists, Option.map_map] at hid
  obtain ⟨made, hmade, rfl⟩ := Option.map_eq_some_iff.1 hid
  rw [received, hmade, Option.getD_some, Function.comp_apply, Workspace.foldl_putClass_ofList,
    Workspace.class?_ofList]

/-- The class that the runtime has under a name is the one that was added last. -/
theorem load?_after_ofLists (name : String) :
    let now := (ofLists names classes workspaces active).after past
    now.sources.classPath.load? (ClassName.toBinary name) =
      ReflectedClass.lastNamed? name (added classes past) := by
  intro now
  have hpath : now.sources.classPath = now.classPath := rfl
  have hstart : (ofLists names classes workspaces active).classPath =
      ClassPath.ofLists names classes := rfl
  rw [hpath, load?_after, hstart, ClassPath.load?_ofLists, added]
  simp only [ReflectedClass.lastNamed?, List.reverse_append, List.find?_append]

/-- The signatures of the members of a class depend on nothing but the classes that the active
workspace has received and those that were added to the class path. A request for them is answered
with those that begin with the typed text, in the order of their bytes and each as often as it is
declared, in whatever order they are. The runtime is asked for the class once, unless the owner or
the typed text is blank or the active workspace has a class of the name; then it is not asked. What
completers were asked before or have dropped, and which there are, makes no difference. -/
theorem members_from_history (j : Nat) (owner : Option String) (typed : String)
    (kind : MemberKind) :
    let start := ofLists names classes workspaces active
    let now := start.after past
    let name := Text.trim (owner.getD "")
    let resident := now.sources.active.bind fun w =>
      ClassFile.lastNamed? name (received workspaces past w.id)
    let loadable := ReflectedClass.lastNamed? name (added classes past)
    let known := if name = "" then none
      else (resident.map (·.signatures kind)).or (loadable.map (·.signatures kind))
    let resolve : Nat → Step := fun i => .resolve i (owner.getD "") kind
    let complete : Nat → Step := fun i => .complete i ⟨kind.toKind, owner, typed⟩
    j < now.completers.length →
      (now.step (resolve j)).1.result = .signatures known ∧
      (now.step (resolve j)).1.lookups =
        (if name = "" ∨ resident.isSome then [] else [ClassName.toBinary name]) ∧
      (now.step (complete j)).1.lookups =
        (if name = "" ∨ Text.trim typed = "" ∨ resident.isSome then []
          else [ClassName.toBinary name]) ∧
      (∃ items, (now.step (complete j)).1.result = .items items ∧
        (name = "" ∨ Text.trim typed = "" ∨ known = none → items = []) ∧
        ∀ list, known = some list → Text.trim typed ≠ "" →
          items.Pairwise (fun a b => Text.bytes a ≤ Text.bytes b) ∧
          items.Perm (list.filter fun c => Text.begins (Text.trimStart typed) c) ∧
          ∀ (other : Session) (i : Nat) (list' : List String), list'.Perm list →
            (other.step (resolve i)).1.result = .signatures (some list') →
            (other.step (complete i)).1.result = .items items) ∧
      ∀ (past' : List Step) (i : Nat),
        past'.filter Step.changesSources = past.filter Step.changesSources →
        i < (start.after past').completers.length →
        ((start.after past').step (resolve i)).1.result = (now.step (resolve j)).1.result ∧
        ((start.after past').step (resolve i)).1.lookups = (now.step (resolve j)).1.lookups ∧
        ((start.after past').step (complete i)).1.result = (now.step (complete j)).1.result ∧
        ((start.after past').step (complete i)).1.lookups = (now.step (complete j)).1.lookups := by
  intro start now name resident loadable known resolve complete hj
  have hresident : now.sources.resident? name = resident :=
    resident?_after names classes workspaces active past name
  have hloadable : now.sources.classPath.load? (ClassName.toBinary name) = loadable :=
    load?_after_ofLists names classes workspaces active past name
  have hknown : now.sources.signatures? (owner.getD "") kind = known := by
    rw [Sources.signatures?_eq, hresident, hloadable]
  have hlookups : now.sources.lookups (owner.getD "") =
      if name = "" ∨ resident.isSome then [] else [ClassName.toBinary name] := by
    rw [Sources.lookups_eq, hresident]
  obtain ⟨hitems, hasked⟩ := step_members hj kind owner typed
  rw [hknown] at hitems
  refine ⟨?_, ?_, ?_, ⟨_, hitems, ?_, ?_⟩, ?_⟩
  · rw [step_resolve hj, hknown]
  · rw [step_resolve hj, hlookups]
  · rw [hasked, hlookups]
    by_cases htyped : Text.trim typed = ""
    · simp [htyped]
    · simp [htyped]
  · rintro (hname | htyped | hnone)
    · have hnone : known = none := if_pos hname
      rw [hnone]
      simp
    · rw [if_pos htyped]
    · rw [hnone]
      simp
  · intro list hlist htyped
    rw [hlist, if_neg htyped, Option.map_some, Option.getD_some]
    refine ⟨Selection.pairwise_apply_signature _ _, Names.sorted_perm _, ?_⟩
    intro other i list' hperm hresolve
    obtain ⟨hi, hlist'⟩ := signatures?_of_step_resolve hresolve
    rw [(step_members hi kind owner typed).1, hlist', if_neg htyped, Option.map_some,
      Option.getD_some, Selection.apply_signature_congr hperm]
  · intro past' i hfilter hi
    -- the other steps can be taken out of either history
    have hbare : (start.after past').bare = now.bare := by
      rw [bare_after_filter, hfilter, ← bare_after_filter]
    have hsources : (start.after past').sources = now.sources := by
      have h := congrArg sources hbare
      exact h
    obtain ⟨hitems', hasked'⟩ := step_members hi kind owner typed
    rw [hsources, hknown] at hitems'
    rw [hsources] at hasked'
    refine ⟨?_, ?_, hitems'.trans hitems.symm, hasked'.trans hasked.symm⟩
    · rw [step_resolve hi, step_resolve hj, hsources]
    · rw [step_resolve hi, step_resolve hj, hsources]

end History

/-- The class that was added last under the name of the owner answers, although another one was
there before and the separators differ. -/
theorem members_from_history_of_added_class :
    let start := ofLists [] [⟨"a.B", [⟨"ride", [], "int"⟩], []⟩] [("w", [⟨"a.B", [], []⟩])]
      (some "w")
    let past : List Step := [.names 0,
      .addClass ⟨"a/B", [⟨"run", ["int[]"], "void"⟩, ⟨"rest", [], "int"⟩], []⟩, .invalidate 0]
    let now := start.after past
    let told := (now.step (.complete 0 ⟨.method, some " a/B", " r"⟩)).1
    0 < now.completers.length ∧
      (∃ items, told.result = .items items ∧
        items.Perm (["run([I)V", "rest()I"].filter fun c => Text.begins "r" c) ∧
        items.Pairwise fun a b => Text.bytes a ≤ Text.bytes b) ∧
      told.lookups = ["a.B"] := by
  intro start past now told
  have hj : 0 < now.completers.length := by decide
  have hresident : (now.sources.active.bind fun w => ClassFile.lastNamed? (Text.trim " a/B")
      (received [("w", [⟨"a.B", [], []⟩])] past w.id)) = none := by
    simp only [now, start, past]
    decide +kernel
  have hloadable : ReflectedClass.lastNamed? (Text.trim " a/B")
      (added [⟨"a.B", [⟨"ride", [], "int"⟩], []⟩] past) =
        some ⟨"a/B", [⟨"run", ["int[]"], "void"⟩, ⟨"rest", [], "int"⟩], []⟩ := by
    simp only [past]
    decide +kernel
  have hsignatures : ReflectedClass.signatures
      ⟨"a/B", [⟨"run", ["int[]"], "void"⟩, ⟨"rest", [], "int"⟩], []⟩ .method =
        ["run([I)V", "rest()I"] := by decide
  obtain ⟨-, -, hlookups, ⟨items, hitems, -, hlist⟩, -⟩ :=
    members_from_history [] [⟨"a.B", [⟨"ride", [], "int"⟩], []⟩] [("w", [⟨"a.B", [], []⟩])]
      (some "w") past 0 (some " a/B") " r" .method hj
  simp only [Option.getD_some] at hlookups hlist
  rw [hresident] at hlookups hlist
  rw [hloadable, if_neg (by decide), Option.map_none, Option.none_or, Option.map_some,
    hsignatures] at hlist
  obtain ⟨hpairwise, hperm, -⟩ := hlist _ rfl (by decide)
  refine ⟨hj, ⟨items, hitems, hperm, hpairwise⟩, hlookups.trans ?_⟩
  rw [if_neg (by decide)]
  decide +kernel

/-- The runtime is not asked for a class that the active workspace has, although neither the owner
nor the typed text is blank. -/
theorem members_of_resident_class_without_lookup :
    let start := ofLists [] [] [("w", [⟨"a/B", [⟨"run", "()V"⟩], []⟩])] (some "w")
    let told := (start.step (.complete 0 ⟨.method, some "a/B", "r"⟩)).1
    Text.trim "a/B" ≠ "" ∧ Text.trim "r" ≠ "" ∧ told.result = .items ["run()V"] ∧
      told.lookups ≠ [ClassName.toBinary "a/B"] := by
  refine ⟨by decide, by decide, by decide +kernel, ?_⟩
  have hlookups : ((ofLists [] [] [("w", [⟨"a/B", [⟨"run", "()V"⟩], []⟩])] (some "w")).step
      (.complete 0 ⟨.method, some "a/B", "r"⟩)).1.lookups = [] := by decide +kernel
  rw [hlookups]
  simp

end Session

end JvmCompletion
