import JvmCompletion.Proofs.SnapshotClasses

/-!
# The answers of a completer over a snapshot

A completer over a snapshot builds its list of class names at the first request that needs it and
keeps it from then on. The sources of a snapshot do not change, so the list is at any time the one
that would be built: each request is answered as by a completer that was never asked before.
`completeAll_eq_map_alone` says so, and where the answers come from: the names of both parts of the
snapshot for class names and descriptors, and for members the class that is listed last under the
name of the owner.
-/

namespace JvmCompletion

namespace Completer

/-- Requests that are made one after another are answered as each of them is by itself, if the
sources stay the same. -/
theorem completeAll_eq_map {s : Sources} {index : NameIndex}
    (hindex : index.names s = s.classNames) (requests : List Request) :
    completeAll s index requests = requests.map fun r => (complete s {} r).items := by
  induction requests generalizing index with
  | nil => rfl
  | cons first rest ih =>
    have hfirst : (complete s index first).items = (complete s {} first).items :=
      items_complete_congr (hindex.trans (NameIndex.names_empty s).symm) first
    have hrest := ih (names_index_complete hindex first)
    rw [List.map_cons, ← hfirst, ← hrest]
    rfl

end Completer

namespace Snapshot

/-- The suggestions for a request that is the only one made of a completer over a snapshot. -/
def answer (s : Snapshot) (r : Request) : List String := (Completer.complete s.sources {} r).items

variable (s : Snapshot)

/-- The members of an owner are those of the last class of the workspace that has exactly its name,
else of the last class of the runtime that has its name with the packages separated in whichever
way. -/
theorem signatures?_sources (owner : String) (kind : MemberKind) :
    s.sources.signatures? owner kind =
      if Text.trim owner = "" then none
      else ((s.workspace.bind fun w => ClassFile.lastNamed? (Text.trim owner) w.classes).map
          (·.signatures kind)).or
        ((ReflectedClass.lastNamed? (Text.trim owner) s.runtime.classes).map
          (·.signatures kind)) := by
  have hloadable : s.sources.classPath.load? (ClassName.toBinary (Text.trim owner)) = _ :=
    ClassPath.load?_ofLists _ _ _
  have hresident : s.sources.resident? (Text.trim owner) =
      s.workspace.bind fun w => ClassFile.lastNamed? (Text.trim owner) w.classes := by
    cases hw : s.workspace with
    | none => simp [Sources.resident?, sources, activeWorkspace, hw]
    | some w =>
      have hclass := Workspace.class?_ofList workspaceId w.classes (Text.trim owner)
      simpa [Sources.resident?, sources, activeWorkspace, hw] using hclass
  rw [Sources.signatures?_eq, hresident, hloadable]

/-- A completer over a snapshot answers every request as it would if that were the only one, however
many there are and in whatever order. Class names and descriptors are completed from one list: in
the order of their bytes and each once, the names of the runtime, trimmed and in internal form,
those of its classes in internal form, and those of the classes of the workspace as they are.
Members are those of the last class of the workspace that has exactly the name of the owner, or else
of the last class of the runtime that has its name with the packages separated in whichever way. -/
theorem completeAll_eq_map_alone :
    (∀ requests, s.completeAll requests = requests.map s.answer) ∧
      (∀ r, s.completeAll [r] = [s.answer r]) ∧
      (∃ names : List String, names.Pairwise (fun a b => Text.bytes a < Text.bytes b) ∧
        (∀ name, name ∈ names ↔
          (∃ bare ∈ s.runtime.names, ClassName.toInternal (Text.trim bare) = name) ∨
            (∃ c ∈ s.runtime.classes, ClassName.toInternal c.name = name) ∨
              ∃ w ∈ s.workspace, ∃ c ∈ w.classes, c.name = name) ∧
        ∀ owner typed,
          s.answer ⟨.internalName, owner, typed⟩ =
              (if Text.trim typed = "" then []
                else (Selection.longer (Text.trim typed)).apply names) ∧
            s.answer ⟨.descriptor, owner, typed⟩ =
              ((OpenDescriptor.read? typed).map fun d => (Selection.closing d).apply names).getD
                []) ∧
      ∀ (kind : MemberKind) (owner : Option String) (typed : String),
        let name := Text.trim (owner.getD "")
        let resident := s.workspace.bind fun w => ClassFile.lastNamed? name w.classes
        let loadable := ReflectedClass.lastNamed? name s.runtime.classes
        let known := if name = "" then none
          else (resident.map (·.signatures kind)).or (loadable.map (·.signatures kind))
        s.answer ⟨kind.toKind, owner, typed⟩ =
          if Text.trim typed = "" then []
          else (known.map (Selection.signature (Text.trimStart typed)).apply).getD [] := by
  have hmap : ∀ requests, s.completeAll requests = requests.map s.answer :=
    Completer.completeAll_eq_map (NameIndex.names_empty s.sources)
  refine ⟨hmap, fun r => hmap [r], ⟨s.sources.classNames, ?_, ?_, ?_⟩, ?_⟩
  · exact s.sources.pairwise_classNames.imp Text.bytes_lt_iff.2
  · intro name
    rw [Sources.mem_classNames, lists_iff]
  · intro owner typed
    rw [answer, answer, Completer.items_internalName, Completer.items_descriptor,
      NameIndex.names_empty]
    refine ⟨rfl, ?_⟩
    cases OpenDescriptor.read? typed with
    | none => rfl
    | some d => rfl
  · intro kind owner typed name resident loadable known
    have hknown : s.sources.signatures? (owner.getD "") kind = known :=
      s.signatures?_sources (owner.getD "") kind
    rw [answer, (Completer.complete_members s.sources {} kind owner typed).1, hknown]

end Snapshot

end JvmCompletion
