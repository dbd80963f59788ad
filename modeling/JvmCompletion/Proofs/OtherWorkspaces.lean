import JvmCompletion.Proofs.Members
import JvmCompletion.Proofs.LastBuild
import JvmCompletion.Proofs.Reports
import JvmCompletion.Proofs.Selections

/-!
# Workspaces that are not consulted

A workspace that is made active and replaced again leaves no trace, unless something was completed
in between. Two runs in which it holds different classes, and receives different ones, are told
about in the same words: `unconsulted_workspace_leaves_no_trace`. What a completer does show comes
from the class path and from the workspace that is active, as it is now for members, and as it was
when the list was built for class names.

The two sessions agree in all but the classes of the workspace (`AgreeOutside`). As the sources are
only consulted while another workspace is active, or none, they are the same in both.
-/

namespace JvmCompletion

/-- The workspaces are one, or both have the given identity and hold whatever classes. -/
def Workspace.SameOutside (id : WorkspaceId) (w v : Workspace) : Prop :=
  w.id = v.id ∧ (w.id ≠ id → w = v)

/-- The steps are the same, or both put a class into the workspace with the given identity. -/
def Step.SameOutside (id : WorkspaceId) (first second : Step) : Prop :=
  first = second ∨ ∃ c d, first = .putClass id c ∧ second = .putClass id d

/-- How a step shows a class name that it suggests. If it asks for descriptors, the one that is read
from what was typed is closed over the name; otherwise the name is shown as it is. -/
def Step.shown : Step → String → String
  | .complete _ ⟨.descriptor, _, typed⟩, name =>
    match OpenDescriptor.read? typed with
    | some d => d.close name
    | none => name
  | _, name => name

theorem Workspace.SameOutside.fill {id : WorkspaceId} {w v : Workspace} (h : w.SameOutside id v)
    {first second : Step} (hsteps : first.SameOutside id second) :
    (first.fill w).SameOutside id (second.fill v) := by
  refine ⟨by simpa using h.1, fun hid => ?_⟩
  rw [Step.id_fill] at hid
  obtain rfl := h.2 hid
  rcases hsteps with rfl | ⟨c, d, rfl, rfl⟩
  · rfl
  · simp [Step.fill, hid]

namespace Sources

/-- The signature is that of a member of a class with this name, in the active workspace or, by its
binary name, in the class path. -/
def Declares (s : Sources) (name : String) (kind : MemberKind) (signature : String) : Prop :=
  (∃ w ∈ s.active, ∃ c, w.class? name = some c ∧ signature ∈ c.signatures kind) ∨
    ∃ c, s.classPath.load? (ClassName.toBinary name) = some c ∧ signature ∈ c.signatures kind

theorem declares_of_signatures? {s : Sources} {owner : String} {kind : MemberKind}
    {list : List String} (h : s.signatures? owner kind = some list) {signature : String}
    (hsignature : signature ∈ list) : s.Declares (Text.trim owner) kind signature := by
  rw [signatures?_eq] at h
  split at h
  · cases h
  · rcases Option.or_eq_some_iff.1 h with hresident | ⟨-, hloaded⟩
    · obtain ⟨c, hc, rfl⟩ := Option.map_eq_some_iff.1 hresident
      obtain ⟨w, hw, hclass⟩ := Option.bind_eq_some_iff.1 hc
      exact Or.inl ⟨w, hw, c, hclass, hsignature⟩
    · obtain ⟨c, hc, rfl⟩ := Option.map_eq_some_iff.1 hloaded
      exact Or.inr ⟨c, hc, hsignature⟩

end Sources

namespace Session

/-- Nothing sets the two sessions apart but the classes of the workspace with an identity. -/
structure AgreeOutside (id : WorkspaceId) (s t : Session) : Prop where
  classPath : s.classPath = t.classPath
  active : s.active = t.active
  length : s.completers.length = t.completers.length
  index : ∀ k, s.index k = t.index k
  builds : s.builds = t.builds
  workspaces : List.Forall₂ (Workspace.SameOutside id) s.workspaces t.workspaces

/-- While the workspace with an identity is active, no step consults the sources. -/
def Unconsulted (s : Session) (id : WorkspaceId) : List Step → Prop
  | [] => True
  | step :: rest =>
    (s.active = some id → step.consults = false) ∧ (s.step step).2.Unconsulted id rest

section TwoRuns

variable {id : WorkspaceId} {s t : Session}

/-! ## One step -/

theorem workspace?_of_forall₂ {ws vs : List Workspace}
    (h : List.Forall₂ (Workspace.SameOutside id) ws vs) (k : WorkspaceId) :
    ((ws.find? fun w => w.id == k).isSome = (vs.find? fun w => w.id == k).isSome) ∧
      (k ≠ id → (ws.find? fun w => w.id == k) = vs.find? fun w => w.id == k) := by
  rcases find?_of_forall₂ And.left h k with ⟨hs, ht⟩ | ⟨w, v, hs, ht, hw⟩
  · rw [hs, ht]
    exact ⟨rfl, fun _ => rfl⟩
  · have hk : w.id = k := by simpa using List.find?_some hs
    rw [hs, ht]
    refine ⟨rfl, fun hne => congrArg some (hw.2 ?_)⟩
    rw [hk]
    exact hne

theorem map_id_of_forall₂ {ws vs : List Workspace}
    (h : List.Forall₂ (Workspace.SameOutside id) ws vs) :
    ws.map Workspace.id = vs.map Workspace.id := by
  induction h with
  | nil => rfl
  | cons hw _ ih => rw [List.map_cons, List.map_cons, hw.1, ih]

theorem AgreeOutside.workspace? (h : s.AgreeOutside id t) {k : WorkspaceId} (hk : k ≠ id) :
    s.workspace? k = t.workspace? k :=
  (workspace?_of_forall₂ h.workspaces k).2 hk

theorem AgreeOutside.sources (h : s.AgreeOutside id t) (hactive : s.active ≠ some id) :
    s.sources = t.sources := by
  rw [Session.sources, Session.sources, h.classPath, ← h.active]
  cases hs : s.active with
  | none => rfl
  | some k =>
    have hk : k ≠ id := by
      rintro rfl
      exact hactive hs
    rw [Option.bind_some, Option.bind_some, h.workspace? hk]

theorem AgreeOutside.alike (h : s.AgreeOutside id t) {step : Step}
    (hstep : s.active = some id → step.consults = false) : Alike step s t where
  classPath := h.classPath
  active := h.active
  length := h.length
  index k _ := h.index k
  known k := (workspace?_of_forall₂ h.workspaces k).1
  sources hconsults := by
    refine h.sources fun hactive => ?_
    rw [hstep hactive] at hconsults
    cases hconsults

theorem AgreeOutside.workspaces_step (h : s.AgreeOutside id t) {first second : Step}
    (hsteps : first.SameOutside id second) :
    List.Forall₂ (Workspace.SameOutside id) (s.step first).2.workspaces
      (t.step second).2.workspaces := by
  rw [Session.workspaces_step, Session.workspaces_step, List.forall₂_map_left_iff,
    List.forall₂_map_right_iff]
  exact h.workspaces.imp fun _ _ hw => hw.fill hsteps

/-- A step that is the same in both sessions, and consults the sources only if these are the same,
lets them agree as before. -/
theorem AgreeOutside.step (h : s.AgreeOutside id t) {step : Step}
    (hstep : s.active = some id → step.consults = false) :
    (s.step step).2.AgreeOutside id (t.step step).2 := by
  have hsources : ∀ k, s.needing? step = some k → s.sources = t.sources :=
    fun k hk => (h.alike hstep).sources (consults_of_needing? hk)
  have hids := map_id_of_forall₂ h.workspaces
  refine ⟨?_, ?_, ?_, fun k => ?_, ?_, ?_⟩
  · rw [classPath_step, classPath_step, h.classPath]
  · rw [active_step, active_step, h.active, hids]
  · rw [length_step, length_step, h.length]
  · rw [index_step, index_step, ← needing?_congr h.length step, h.index k]
    by_cases hneed : s.needing? step = some k
    · rw [hsources k hneed]
    · rw [if_neg hneed, if_neg hneed]
  · rw [(builds_step s step).2, (builds_step t step).2, (builds_step s step).1,
      (builds_step t step).1, ← needing?_congr h.length step, h.builds]
    cases hneed : s.needing? step with
    | none => rfl
    | some k => rw [Option.elim_some, Option.elim_some, h.index k, hsources k hneed]
  · exact h.workspaces_step (Or.inl rfl)

theorem AgreeOutside.step_sameOutside (h : s.AgreeOutside id t) {first second : Step}
    (hsteps : first.SameOutside id second) (hstep : s.active = some id → first.consults = false) :
    (s.step first).2.AgreeOutside id (t.step second).2 := by
  have hworkspaces := h.workspaces_step hsteps
  rcases hsteps with rfl | ⟨c, d, rfl, rfl⟩
  · exact h.step hstep
  · -- classes that are put into a workspace reach nothing else
    rw [step_putClass, step_putClass] at hworkspaces ⊢
    exact ⟨h.classPath, h.active, h.length, h.index, h.builds, hworkspaces⟩

/-- The two steps are told about in the same way, but for the result of a step about the classes of
the workspace that differs. -/
theorem AgreeOutside.report (h : s.AgreeOutside id t) {first second : Step}
    (hsteps : first.SameOutside id second) (hstep : s.active = some id → first.consults = false) :
    (s.step first).1.builds = (t.step second).1.builds ∧
      (s.step first).1.lookups = (t.step second).1.lookups ∧
      (first.inspects? ≠ some id → (s.step first).1 = (t.step second).1) := by
  have hbuilds : (s.step first).1.builds = (t.step second).1.builds := by
    rw [← (builds_step s first).2, ← (builds_step t second).2,
      (h.step_sameOutside hsteps hstep).builds]
  rcases hsteps with rfl | ⟨c, d, rfl, rfl⟩
  · have halike := h.alike hstep
    refine ⟨hbuilds, halike.lookups, fun hother => Report.ext ?_ hbuilds halike.lookups⟩
    refine halike.result fun k hk => h.workspace? ?_
    rintro rfl
    exact hother hk
  · refine ⟨hbuilds, ?_, fun hother => absurd rfl hother⟩
    simp only [Session.step]
    split <;> split <;> rfl

/-! ## A run -/

theorem AgreeOutside.run (h : s.AgreeOutside id t) {steps steps' : List Step}
    (hsteps : List.Forall₂ (Step.SameOutside id) steps steps') (hno : s.Unconsulted id steps) :
    ((s.run steps).1.map fun told => (told.builds, told.lookups)) =
        ((t.run steps').1.map fun told => (told.builds, told.lookups)) ∧
      ∀ (n : Nat) (step : Step), steps[n]? = some step → step.inspects? ≠ some id →
        (s.run steps).1[n]? = (t.run steps').1[n]? := by
  induction hsteps generalizing s t with
  | nil => exact ⟨rfl, fun n step hstep => by cases hstep⟩
  | @cons first second rest rest' hfirst _ ih =>
    obtain ⟨hconsults, hno⟩ := hno
    obtain ⟨hbuilds, hlookups, hreport⟩ := h.report hfirst hconsults
    obtain ⟨hrest, hreports⟩ := ih (h.step_sameOutside hfirst hconsults) hno
    rw [Session.run, Session.run]
    refine ⟨?_, fun n step hstep hother => ?_⟩
    · rw [List.map_cons, List.map_cons, hbuilds, hlookups, hrest]
    · cases n with
      | zero =>
        obtain rfl : first = step := Option.some.inj hstep
        exact congrArg some (hreport hother)
      | succ n => exact hreports n step hstep hother

end TwoRuns

/-! ## Where suggestions come from -/

theorem shown_of_selection? {r : Request} {selection : Selection}
    (h : r.selection? = some selection) (j : Nat) (name : String) :
    (Step.complete j r).shown name = selection.shown name := by
  obtain ⟨kind, owner, typed⟩ := r
  cases kind with
  | internalName =>
    obtain ⟨-, rfl⟩ : ¬ Text.isBlankText typed = true ∧ .longer (Text.trim typed) = selection := by
      simpa [Request.selection?, Completer.longerNames?] using h
    rfl
  | descriptor =>
    obtain ⟨d, hread, rfl⟩ : ∃ d, OpenDescriptor.read? typed = some d ∧ .closing d = selection :=
      Option.map_eq_some_iff.1 h
    rw [Step.shown, hread]
    rfl
  | method => cases h
  | field => cases h

/-- What is read out of a list of names are names in it, in the way in which the step shows them. -/
theorem exists_of_mem_reading {step : Step} {j : Nat} {answer : List String → List String}
    (h : step.reading? = some (j, answer)) {names : List String} {item : String}
    (hitem : item ∈ answer names) : ∃ name ∈ names, item = step.shown name := by
  rcases Step.reading?_eq_some_iff.1 h with ⟨r, -, rfl, rfl⟩ | ⟨rfl, rfl⟩
  · rw [Request.suggestions] at hitem
    cases hselection : r.selection? with
    | none => simp [hselection] at hitem
    | some selection =>
      rw [hselection] at hitem
      obtain ⟨name, hname, rfl⟩ := selection.exists_of_mem_apply hitem
      exact ⟨name, hname, (shown_of_selection? hselection j name).symm⟩
  · exact ⟨item, hitem, rfl⟩

/-- A suggestion out of the list of names comes from a name that the sources had when the list was
built, while the workspace was active that is active now. -/
theorem listed_at_lastBuild {start : Session} (hstart : ∀ j, start.index j = {})
    {past : List Step} {step : Step} {j : Nat} {answer : List String → List String}
    (h : step.reading? = some (j, answer)) (hj : j < (start.after past).completers.length) :
    ∃ items, ((start.after past).step step).1.result = .items items ∧ ∀ item ∈ items,
      ∃ name, item = step.shown name ∧
        ∃ before, start.LastBuild (past ++ [step]) j before ∧
          (start.after before).sources.identity = (start.after past).sources.identity ∧
          (start.after before).sources.Lists name := by
  refine ⟨_, result_step h hj, fun item hitem => ?_⟩
  by_cases hneed : (start.after past).needing? step = some j
  · obtain ⟨before, hlast, hidentity, hnames⟩ := identity_of_lastBuild hstart hneed
    rw [hnames] at hitem
    obtain ⟨name, hname, hshown⟩ := exists_of_mem_reading h hitem
    exact ⟨name, hshown, before, hlast, hidentity, Sources.mem_classNames.1 hname⟩
  · -- the list is not looked at, so the answer is that out of an empty one
    rw [answer_eq_of_needing?_ne h hj hneed _ []] at hitem
    obtain ⟨name, hname, -⟩ := exists_of_mem_reading h hitem
    cases hname

/-- A member that is suggested is declared by a class of the sources as they are. -/
theorem declares_of_step_members {s : Session} {j : Nat} (hj : j < s.completers.length)
    (kind : MemberKind) (owner : Option String) (typed : String) :
    ∃ items, (s.step (.complete j ⟨kind.toKind, owner, typed⟩)).1.result = .items items ∧
      ∀ item ∈ items, s.sources.Declares (Text.trim (owner.getD "")) kind item := by
  refine ⟨_, (step_members hj kind owner typed).1, fun item hitem => ?_⟩
  split at hitem
  · cases hitem
  · cases hlist : s.sources.signatures? (owner.getD "") kind with
    | none => simp [hlist] at hitem
    | some list =>
      rw [hlist, Option.map_some, Option.getD_some, Selection.apply, Names.mem_sorted] at hitem
      exact Sources.declares_of_signatures? hlist (List.mem_filter.1 hitem).1

/-- Two runs that differ only in the classes of one workspace, those that it holds at the start and
those that are put into it, are told about in the same way, if nobody completes, asks for names,
resolves an owner or adds a warm completer while it is active: every report has the same number of
lists built and the same classes that the runtime was asked for, and the same result too unless the
step is about the classes of the workspace itself. So what is suggested never comes from a
workspace that was only passed through. A member is declared by a class of the sources as they are.
A class name, be it shown as it is or with the typed descriptor closed over it, was in the sources
when the completer last built its list, at which the same workspace was active as now. -/
theorem unconsulted_workspace_leaves_no_trace (classPath : ClassPath)
    (workspaces workspaces' : List Workspace) (active : Option WorkspaceId)
    (steps steps' : List Step) (id : WorkspaceId) :
    let start : Session := { classPath, workspaces, active }
    let start' : Session := { classPath, workspaces := workspaces', active }
    let now := start.after steps
    (List.Forall₂ (Workspace.SameOutside id) workspaces workspaces' →
      List.Forall₂ (Step.SameOutside id) steps steps' → start.Unconsulted id steps →
        ((start.run steps).1.map fun told => (told.builds, told.lookups)) =
            ((start'.run steps').1.map fun told => (told.builds, told.lookups)) ∧
          ∀ (n : Nat) (step : Step), steps[n]? = some step → step.inspects? ≠ some id →
            (start.run steps).1[n]? = (start'.run steps').1[n]?) ∧
      (∀ (step : Step) (j : Nat) (answer : List String → List String),
        step.reading? = some (j, answer) → j < now.completers.length →
        ∃ items, (now.step step).1.result = .items items ∧ ∀ item ∈ items,
          ∃ name, item = step.shown name ∧
            ∃ before, start.LastBuild (steps ++ [step]) j before ∧
              (start.after before).sources.identity = now.sources.identity ∧
              (start.after before).sources.Lists name) ∧
      ∀ (j : Nat) (kind : MemberKind) (owner : Option String), j < now.completers.length →
        (∀ list, (now.step (.resolve j (owner.getD "") kind)).1.result = .signatures (some list) →
          ∀ signature ∈ list, now.sources.Declares (Text.trim (owner.getD "")) kind signature) ∧
        ∀ typed, ∃ items,
          (now.step (.complete j ⟨kind.toKind, owner, typed⟩)).1.result = .items items ∧
            ∀ item ∈ items, now.sources.Declares (Text.trim (owner.getD "")) kind item := by
  intro start start' now
  have hstart : ∀ j, start.index j = {} := index_start classPath workspaces active
  refine ⟨fun hworkspaces hsteps hno => ?_, ?_, fun j kind owner hj => ⟨?_, ?_⟩⟩
  · have hagree : start.AgreeOutside id start' := by
      refine ⟨rfl, rfl, rfl, fun k => ?_, rfl, hworkspaces⟩
      rw [hstart, index_start]
    exact hagree.run hsteps hno
  · intro step j answer hreading hj
    exact listed_at_lastBuild hstart hreading hj
  · intro list hresult signature hsignature
    have hlist := (signatures?_of_step_resolve hresult).2
    exact Sources.declares_of_signatures? hlist hsignature
  · exact declares_of_step_members hj kind owner

/-- A workspace is passed through twice and is given a class in between; in the other run it has had
a class from the start and is given another one. The names in sight at the end are the same, and so
are the ways to close a descriptor over them. -/
theorem unconsulted_workspace_leaves_no_trace_when_passed_through :
    let start : Session :=
      { classPath := ClassPath.ofLists ["a/B"] [], active := some "v",
        workspaces := [Workspace.ofList "v" [⟨"v/A", [], []⟩], Workspace.empty "w"] }
    let start' : Session :=
      { start with workspaces := [Workspace.ofList "v" [⟨"v/A", [], []⟩],
          Workspace.ofList "w" [⟨"w/A", [], []⟩]] }
    let steps : List Step := [.names 0, .activate "w", .putClass "w" ⟨"w/B", [], []⟩,
      .activate "v", .activate "w", .close, .names 0, .resolve 0 "w/B" .method]
    let steps' : List Step := [.names 0, .activate "w", .putClass "w" ⟨"w/C", [], []⟩,
      .activate "v", .activate "w", .close, .names 0, .resolve 0 "w/B" .method]
    let closing : Step := .complete 0 ⟨.descriptor, none, " [La"⟩
    let now := start.after steps
    (List.Forall₂ (Workspace.SameOutside "w") start.workspaces start'.workspaces ∧
        List.Forall₂ (Step.SameOutside "w") steps steps' ∧ start.Unconsulted "w" steps ∧
        (start.run steps).1[6]? = (start'.run steps').1[6]?) ∧
      (0 < now.completers.length ∧
        (∃ items, (now.step (.names 0)).1.result = .items items ∧ ∀ item ∈ items,
          ∃ name, item = name ∧
            ∃ before, start.LastBuild (steps ++ [.names 0]) 0 before ∧
              (start.after before).sources.identity = none ∧
              (start.after before).sources.Lists name) ∧
        ∃ items, (now.step closing).1.result = .items items ∧ ∀ item ∈ items,
          ∃ name, item = "[L" ++ name ++ ";" ∧
            ∃ before, start.LastBuild (steps ++ [closing]) 0 before ∧
              (start.after before).sources.identity = none ∧
              (start.after before).sources.Lists name) := by
  intro start start' steps steps' closing now
  obtain ⟨hruns, hanswers, -⟩ := unconsulted_workspace_leaves_no_trace
    (ClassPath.ofLists ["a/B"] []) [Workspace.ofList "v" [⟨"v/A", [], []⟩], Workspace.empty "w"]
    [Workspace.ofList "v" [⟨"v/A", [], []⟩], Workspace.ofList "w" [⟨"w/A", [], []⟩]]
    (some "v") steps steps' "w"
  have hworkspaces : List.Forall₂ (Workspace.SameOutside "w") start.workspaces
      start'.workspaces :=
    .cons ⟨rfl, fun _ => rfl⟩ (.cons ⟨rfl, fun hw => absurd rfl hw⟩ .nil)
  have hsteps : List.Forall₂ (Step.SameOutside "w") steps steps' :=
    .cons (Or.inl rfl) (.cons (Or.inl rfl) (.cons (Or.inr ⟨_, _, rfl, rfl⟩)
      (List.forall₂_same.2 fun _ _ => Or.inl rfl)))
  have hno : start.Unconsulted "w" steps := by
    refine ⟨?_, ?_, ?_, ?_, ?_, ?_, ?_, ?_, trivial⟩ <;> decide
  have hj : 0 < now.completers.length := by decide
  have hclosed : now.sources.identity = none := by decide
  have hread : OpenDescriptor.read? " [La" = some ⟨"[L", "a"⟩ := by decide
  have hshown : ∀ name, closing.shown name = "[L" ++ name ++ ";" := by
    intro name
    simp only [closing, Step.shown, hread]
    rfl
  have hnames := hanswers (.names 0) 0 id rfl hj
  have hclosings := hanswers closing 0 _ rfl hj
  simp only [hshown] at hclosings
  rw [← hclosed]
  refine ⟨⟨hworkspaces, hsteps, hno, ?_⟩, hj, ?_⟩
  · exact (hruns hworkspaces hsteps hno).2 6 (.names 0) rfl (by decide)
  · -- with the abbreviations written out the goal is what was found above letter by letter
    dsimp only [now, start, steps]
    exact ⟨hnames, hclosings⟩

end Session

end JvmCompletion
