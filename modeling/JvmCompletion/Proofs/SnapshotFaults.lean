import JvmCompletion.Proofs.SnapshotClasses

/-!
# Why a snapshot is refused

A snapshot may have any number of names that no class can have, and it is refused for one of them.
A blank name in the runtime comes first, be it that of a class or stand by itself, and whatever else
is wrong. After that the classes of the workspace count in the order in which they are listed, and
of a class that is blank and of one that has a dot in it the words are different ones.
`refused_for_first_fault` says which error every snapshot has, and that a text is refused as the
snapshot that it describes is.
-/

namespace JvmCompletion

/-- A name in the runtime has nothing but blanks in it. -/
def RuntimePart.HasBlankName (r : RuntimePart) : Prop :=
  (∃ name ∈ r.names, Text.trim name = "") ∨ ∃ c ∈ r.classes, Text.trim c.name = ""

/-- A class in a workspace has a name that it cannot have. -/
def ClassFile.Misnamed (c : ClassFile) : Prop := Text.trim c.name = "" ∨ '.' ∈ c.name.toList

theorem RuntimePart.not_hasBlankName_iff {r : RuntimePart} :
    ¬ r.HasBlankName ↔
      (∀ name ∈ r.names, Text.trim name ≠ "") ∧ ∀ c ∈ r.classes, Text.trim c.name ≠ "" := by
  simp [HasBlankName]

theorem ClassFile.not_misnamed_iff {c : ClassFile} :
    ¬ c.Misnamed ↔ Text.trim c.name ≠ "" ∧ '.' ∉ c.name.toList := by
  simp [Misnamed]

namespace Snapshot

variable {s : Snapshot}

/-- The snapshot is refused for a class in the part of this name, and for this reason. -/
def RefusedFor (s : Snapshot) (part reason : String) : Prop :=
  ∃ place fault, s.validate = .error (.invalidClass place fault) ∧
    place.word = part ∧ fault.message = reason

theorem validate_eq_ok_iff_of_faults :
    s.validate = .ok () ↔
      ¬ s.runtime.HasBlankName ∧ ∀ w ∈ s.workspace, ∀ c ∈ w.classes, ¬ c.Misnamed := by
  simp only [validate_eq_ok_iff, RuntimePart.not_hasBlankName_iff, ClassFile.not_misnamed_iff]

theorem refusedFor_of_hasBlankName (h : s.runtime.HasBlankName) :
    s.RefusedFor "runtime" "class name is blank" := by
  have herror : s.validate = .error (.invalidClass .runtime .blank) := by
    rw [validate_eq_error_iff]
    rcases h with ⟨name, hname, hblank⟩ | ⟨c, hc, hblank⟩
    · exact .name hname hblank
    · exact .loadable hc hblank
  exact ⟨_, _, herror, rfl, rfl⟩

/-- In front of the first class of the workspace that is misnamed there is nothing to report. -/
theorem validate_of_first_misnamed (hruntime : ¬ s.runtime.HasBlankName) {w : WorkspacePart}
    (hw : s.workspace = some w) {before after : List ClassFile} {c : ClassFile}
    (hclasses : w.classes = before ++ c :: after) (hbefore : ∀ b ∈ before, ¬ b.Misnamed)
    {fault : NameFault} (hfault : InternalNameFault c.name fault) :
    s.validate = .error (.invalidClass .workspace fault) := by
  obtain ⟨hnames, hloadable⟩ := RuntimePart.not_hasBlankName_iff.1 hruntime
  refine validate_eq_error_iff.2 (.resident hnames hloadable hw hclasses ?_ hfault)
  exact fun b hb => ClassFile.not_misnamed_iff.1 (hbefore b hb)

/-- A snapshot that is refused has a blank name in the runtime or a first class of the workspace
that is misnamed. -/
theorem exists_fault_of_validate_error {e : LoadError} (h : s.validate = .error e) :
    s.runtime.HasBlankName ∨
      ∃ w ∈ s.workspace, ∃ before c after, w.classes = before ++ c :: after ∧
        (∀ b ∈ before, ¬ b.Misnamed) ∧ c.Misnamed := by
  rcases validate_eq_error_iff.1 h with ⟨hname, hblank⟩ | ⟨hc, hblank⟩ |
    @⟨w, before, after, c, fault, -, -, hw, hclasses, hbefore, hfault⟩
  · exact Or.inl (Or.inl ⟨_, hname, hblank⟩)
  · exact Or.inl (Or.inr ⟨_, hc, hblank⟩)
  · have hmisnamed : c.Misnamed := by
      rcases hfault with hblank | ⟨-, hdot⟩
      · exact Or.inl hblank
      · exact Or.inr hdot
    refine Or.inr ⟨w, hw, before, c, after, hclasses, ?_, hmisnamed⟩
    exact fun b hb => ClassFile.not_misnamed_iff.2 (hbefore b hb)

/-- A text that describes a snapshot is read as what checking the snapshot makes of it. -/
theorem parse_of_describes {text : String} (h : (Toml.parse? text).bind ofDocument? = some s)
    (origin : String) : parse text origin = s.validate.map fun _ => s := by
  obtain ⟨value, hvalue, hs⟩ := Option.bind_eq_some_iff.1 h
  simp only [parse, hvalue, hs]

/-- A snapshot is accepted exactly if no name in the runtime is blank and no class of the workspace
has a name that is blank or has a dot in it. If it is refused then a blank name in the runtime is
reported if there is one, no matter what the workspace has, and otherwise the first class of the
workspace that is misnamed: as blank if it is, else with its name as it is. A text that describes
the snapshot is read exactly if the snapshot is accepted, and refused with the same error. -/
theorem refused_for_first_fault (s : Snapshot) :
    (s.validate = .ok () ↔
      ¬ s.runtime.HasBlankName ∧ ∀ w ∈ s.workspace, ∀ c ∈ w.classes, ¬ c.Misnamed) ∧
    (s.runtime.HasBlankName → s.RefusedFor "runtime" "class name is blank") ∧
    (¬ s.runtime.HasBlankName → ∀ w ∈ s.workspace, ∀ before c after,
      w.classes = before ++ c :: after → (∀ b ∈ before, ¬ b.Misnamed) →
        (Text.trim c.name = "" → s.RefusedFor "workspace" "class name is blank") ∧
        (Text.trim c.name ≠ "" → '.' ∈ c.name.toList →
          s.RefusedFor "workspace" ("`" ++ c.name ++ "` is not an internal name"))) ∧
    (∀ e, s.validate = .error e → s.runtime.HasBlankName ∨
      ∃ w ∈ s.workspace, ∃ before c after, w.classes = before ++ c :: after ∧
        (∀ b ∈ before, ¬ b.Misnamed) ∧ c.Misnamed) ∧
    ∀ text origin, (Toml.parse? text).bind ofDocument? = some s →
      (parse text origin = .ok s ↔ s.validate = .ok ()) ∧
        ∀ e, parse text origin = .error e ↔ s.validate = .error e := by
  refine ⟨validate_eq_ok_iff_of_faults, refusedFor_of_hasBlankName, ?_,
    fun e => exists_fault_of_validate_error, ?_⟩
  · intro hruntime w hw before c after hclasses hbefore
    have herror := fun fault => @validate_of_first_misnamed s hruntime w hw before after c hclasses
      hbefore fault
    constructor
    · exact fun hblank => ⟨_, _, herror _ (.blank hblank), rfl, rfl⟩
    · exact fun hblank hdot => ⟨_, _, herror _ (.notInternal hblank hdot), rfl, rfl⟩
  · intro text origin htext
    rw [parse_of_describes htext]
    cases s.validate with
    | ok => simp [Except.map]
    | error e => simp [Except.map]

/-- A class with a dot in its name stands in front of one whose name is blank, and is reported,
unless there is a blank name in the runtime. -/
theorem refused_for_first_fault_of_three :
    let classes : List ClassFile := [⟨"a/C", [], []⟩, ⟨"x.Y", [], []⟩, ⟨" ", [], []⟩]
    let s : Snapshot := { workspace := some { classes } }
    let t : Snapshot := { runtime := { names := ["b/D", "\u3000"] }, workspace := some { classes } }
    let text := "[[workspace.classes]]\nname = 'a/C'\n[[workspace.classes]]\nname = 'x.Y'\n" ++
      "[[workspace.classes]]\nname = ' '\n"
    (¬ s.runtime.HasBlankName ∧ Text.trim "x.Y" ≠ "" ∧ '.' ∈ "x.Y".toList ∧
        s.RefusedFor "workspace" "`x.Y` is not an internal name") ∧
      (t.runtime.HasBlankName ∧ t.RefusedFor "runtime" "class name is blank") ∧
      (Toml.parse? text).bind ofDocument? = some s ∧
      parse text "inline" = .error (.invalidClass .workspace (.notInternal "x.Y")) := by
  intro classes s t text
  have hruntime : ¬ s.runtime.HasBlankName := by
    rw [RuntimePart.not_hasBlankName_iff]
    decide
  have hblank : t.runtime.HasBlankName := Or.inl ⟨"\u3000", by decide, by decide⟩
  have hfirst : ∀ b ∈ [ClassFile.mk "a/C" [] []], ¬ b.Misnamed := by
    intro b hb
    obtain rfl := List.mem_singleton.1 hb
    exact ClassFile.not_misnamed_iff.2 (by decide)
  have hname : Text.trim "x.Y" ≠ "" ∧ '.' ∈ "x.Y".toList := by decide
  have htext : (Toml.parse? text).bind ofDocument? = some s := by decide +kernel
  obtain ⟨-, -, hworkspace, -, hparse⟩ := refused_for_first_fault s
  obtain ⟨-, hfault⟩ := hworkspace hruntime _ rfl [⟨"a/C", [], []⟩] ⟨"x.Y", [], []⟩
    [⟨" ", [], []⟩] rfl hfirst
  have herror : s.validate = .error (.invalidClass .workspace (.notInternal "x.Y")) := by decide
  exact ⟨⟨hruntime, hname.1, hname.2, hfault hname.1 hname.2⟩,
    ⟨hblank, (refused_for_first_fault t).2.1 hblank⟩, htext,
    ((hparse text "inline" htext).2 _).2 herror⟩

end Snapshot

end JvmCompletion
