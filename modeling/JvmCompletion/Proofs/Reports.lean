import JvmCompletion.Proofs.BuildCounts

/-!
# What the report of a step depends on

A step is told about from few parts of the session: the class path and the active workspace, the
list of the completer that it is addressed to, the workspaces that it names, and the sources as a
whole if it consults them. Two sessions that agree in these parts give the step one result and ask
the runtime for the same classes, whatever else sets them apart.
-/

namespace JvmCompletion

attribute [ext] Report

namespace Step

/-- The completer that a step is addressed to. -/
def addressee? : Step → Option Nat
  | .complete j _ | .names j | .servesFor j _ | .invalidate j | .resolve j _ _ => some j
  | _ => none

/-- Whether a step consults the sources: it completes, asks for the class names, resolves an owner
or adds a completer that is to be warm. -/
def consults : Step → Bool
  | .complete .. | .names _ | .resolve .. => true
  | .addCompleter warm => warm
  | _ => false

/-- The workspace whose classes a step is about. -/
def inspects? : Step → Option WorkspaceId
  | .putClass id _ | .resident id | .classOf id _ => some id
  | _ => none

theorem not_changesSources_of_addressee? {step : Step} {j : Nat} (h : step.addressee? = some j) :
    step.changesSources = false ∧ step.joining = 0 := by
  cases step with
  | complete | names | servesFor | invalidate | resolve => exact ⟨rfl, rfl⟩
  | _ => cases h

theorem addressee?_of_dropping? {step : Step} {j : Nat} (h : step.dropping? = some j) :
    step.addressee? = some j := by
  cases step with
  | invalidate k => exact h
  | _ => cases h

end Step

namespace Session

theorem needing?_congr {s t : Session} (h : s.completers.length = t.completers.length)
    (step : Step) : s.needing? step = t.needing? step := by
  cases step <;> simp [needing?, h]

theorem consults_of_needing? {s : Session} {step : Step} {j : Nat}
    (h : s.needing? step = some j) : step.consults = true := by
  rcases needing?_eq_some_iff.1 h with _ | _ | _ | _ <;> rfl

/-- A completer needs its list because it is asked for something, or because it is the next one. -/
theorem addressee?_of_needing? {s : Session} {step : Step} {j : Nat}
    (h : s.needing? step = some j) :
    step.addressee? = some j ∨ step = .addCompleter true ∧ j = s.completers.length := by
  rcases needing?_eq_some_iff.1 h with _ | _ | _ | _
  · exact Or.inl rfl
  · exact Or.inl rfl
  · exact Or.inl rfl
  · exact Or.inr ⟨rfl, rfl⟩

theorem getElem?_completers (s : Session) (j : Nat) :
    s.completers[j]? = if j < s.completers.length then some (s.index j) else none := by
  split
  · rename_i hj
    rw [index, List.getElem?_eq_getElem hj, Option.getD_some]
  · rename_i hj
    exact List.getElem?_eq_none (Nat.le_of_not_lt hj)

/-- If workspaces are related one by one and have their identities in common, those that are found
by an identity are related. -/
theorem find?_of_forall₂ {R : Workspace → Workspace → Prop} (hid : ∀ {w v}, R w v → w.id = v.id)
    {ws vs : List Workspace} (h : List.Forall₂ R ws vs) (id : WorkspaceId) :
    ((ws.find? fun w => w.id == id) = none ∧ (vs.find? fun v => v.id == id) = none) ∨
      ∃ w v, (ws.find? fun w => w.id == id) = some w ∧ (vs.find? fun v => v.id == id) = some v ∧
        R w v := by
  induction h with
  | nil => exact Or.inl ⟨rfl, rfl⟩
  | @cons w v ws vs hw _ ih =>
    rw [List.find?_cons, List.find?_cons, ← hid hw]
    cases w.id == id with
    | true => exact Or.inr ⟨w, v, rfl, rfl, hw⟩
    | false => exact ih

theorem sources_eq_of_bare_eq {s t : Session} (h : s.bare = t.bare) : s.sources = t.sources := by
  have hsources := congrArg sources h
  exact hsources

/-- Two sessions agree in what a step looks at, apart from the classes of the workspace that it is
about. -/
structure Alike (step : Step) (s t : Session) : Prop where
  classPath : s.classPath = t.classPath
  active : s.active = t.active
  length : s.completers.length = t.completers.length
  index : ∀ k, step.addressee? = some k → s.index k = t.index k
  known : ∀ id, (s.workspace? id).isSome = (t.workspace? id).isSome
  sources : step.consults = true → s.sources = t.sources

theorem Alike.completer {s t : Session} {step : Step} (h : Alike step s t) {k : Nat}
    (hk : step.addressee? = some k) : s.completers[k]? = t.completers[k]? := by
  rw [getElem?_completers, getElem?_completers, h.length, h.index k hk]

theorem report_ask_congr {s t : Session} {k : Nat} (h : s.completers[k]? = t.completers[k]?)
    (answer : NameIndex → Answer) :
    (s.ask k answer).1.result = (t.ask k answer).1.result ∧
      (s.ask k answer).1.lookups = (t.ask k answer).1.lookups := by
  rw [ask, ask, h]
  cases t.completers[k]? <;> exact ⟨rfl, rfl⟩

theorem Alike.lookups {s t : Session} {step : Step} (h : Alike step s t) :
    (s.step step).1.lookups = (t.step step).1.lookups := by
  cases step with
  | complete k r =>
    rw [step, step, h.sources rfl]
    exact (report_ask_congr (h.completer rfl) _).2
  | names k =>
    rw [step, step, h.sources rfl]
    exact (report_ask_congr (h.completer rfl) _).2
  | resolve k owner kind =>
    simp only [Session.step, h.completer rfl, h.sources rfl]
    split <;> rfl
  | servesFor | invalidate | activate | putClass | resident | classOf =>
    simp only [Session.step]
    split <;> split <;> rfl
  | close | current | addName | addClass | loadable | load | addCompleter => rfl

theorem Alike.result {s t : Session} {step : Step} (h : Alike step s t)
    (hworkspace : ∀ id, step.inspects? = some id → s.workspace? id = t.workspace? id) :
    (s.step step).1.result = (t.step step).1.result := by
  cases step with
  | complete k r =>
    rw [step, step, h.sources rfl]
    exact (report_ask_congr (h.completer rfl) _).1
  | names k =>
    rw [step, step, h.sources rfl]
    exact (report_ask_congr (h.completer rfl) _).1
  | resolve k owner kind =>
    simp only [Session.step, h.completer rfl, h.sources rfl]
    split <;> rfl
  | servesFor k identity =>
    simp only [Session.step, h.completer rfl, h.known]
    split <;> rfl
  | invalidate k =>
    simp only [Session.step, h.completer rfl]
    split <;> rfl
  | activate id =>
    have hknown := h.known id
    simp only [Session.step]
    cases hs : s.workspace? id <;> cases ht : t.workspace? id <;> simp_all [tell, h.active]
  | putClass id c =>
    have hput : (s.putClass id c).workspace? id = (t.putClass id c).workspace? id := by
      rw [workspace?_putClass, workspace?_putClass, hworkspace id rfl]
    simp only [Session.step, hput]
    split <;> rfl
  | resident id =>
    simp only [Session.step, hworkspace id rfl]
    split <;> rfl
  | classOf id name =>
    simp only [Session.step, hworkspace id rfl]
    split <;> rfl
  | close | current => exact congrArg Result.workspace h.active
  | addName | addClass | loadable | load => simp [Session.step, tell, h.classPath]
  | addCompleter => exact congrArg Result.count h.length

end Session

end JvmCompletion
