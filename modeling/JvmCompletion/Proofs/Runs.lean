import JvmCompletion.Session

/-!
# Steps and the indexes of names

A step touches the index of a completer in one of two ways: it drops the list, or it needs the list
and refreshes it. `Session.needing?` tells which completer needs its list at a step, and
`index_step`, `builds_step` and `result_step` say all that a step does to the indexes, to the number
of lists built, and with the names.
-/

namespace JvmCompletion

/-- Whether symbols of this kind are completed from the list of class names. -/
def Kind.fromNames : Kind → Bool
  | .internalName => true
  | .descriptor => true
  | .method => false
  | .field => false

namespace Request

/-- What a request selects among the class names; nothing if there is nothing to complete, or if
members are wanted. -/
def selection? (r : Request) : Option Selection :=
  match r.kind with
  | .internalName => Completer.longerNames? r.typed
  | .descriptor => Completer.closedDescriptors? r.typed
  | .method => none
  | .field => none

/-- The suggestions that a request finds in a list of class names. -/
def suggestions (r : Request) (names : List String) : List String :=
  match r.selection? with
  | none => []
  | some selection => selection.apply names

end Request

namespace Completer

theorem complete_of_fromNames {r : Request} (h : r.kind.fromNames = true) (s : Sources)
    (index : NameIndex) : complete s index r = completeNames s index r.selection? := by
  obtain ⟨kind, owner, typed⟩ := r
  cases kind with
  | internalName => rfl
  | descriptor => rfl
  | method => cases h
  | field => cases h

theorem index_completeMembers (s : Sources) (index : NameIndex) (kind : MemberKind)
    (owner typed : String) :
    (completeMembers s index kind owner typed).index = index ∧
      (completeMembers s index kind owner typed).builds = 0 := by
  unfold completeMembers
  split <;> exact ⟨rfl, rfl⟩

/-- A request that selects class names refreshes the index, any other leaves it alone. -/
theorem index_complete (s : Sources) (index : NameIndex) (r : Request) :
    (complete s index r).index =
        (if r.selection?.isSome then index.refresh s else index) ∧
      (complete s index r).builds = if r.selection?.isSome then index.builds s else 0 := by
  cases h : r.kind.fromNames with
  | true =>
    rw [complete_of_fromNames h]
    cases r.selection? <;> exact ⟨rfl, rfl⟩
  | false =>
    obtain ⟨kind, owner, typed⟩ := r
    cases kind with
    | internalName => cases h
    | descriptor => cases h
    | method => exact index_completeMembers ..
    | field => exact index_completeMembers ..

theorem items_of_fromNames {r : Request} (h : r.kind.fromNames = true) (s : Sources)
    (index : NameIndex) : (complete s index r).items = r.suggestions (index.names s) := by
  rw [complete_of_fromNames h, Request.suggestions]
  cases r.selection? <;> rfl

end Completer

namespace Step

/-- The completer that a step makes drop its list. -/
def dropping? : Step → Option Nat
  | .invalidate j => some j
  | _ => none

/-- The completer that a step asks for something out of the list of names, and how what it answers
comes out of the list. -/
def reading? : Step → Option (Nat × (List String → List String))
  | .complete j r => if r.kind.fromNames then some (j, r.suggestions) else none
  | .names j => some (j, id)
  | _ => none

/-- The list of names is read by a request for class names or descriptors, and shown as it is. -/
theorem reading?_eq_some_iff {step : Step} {j : Nat} {answer : List String → List String} :
    step.reading? = some (j, answer) ↔
      (∃ r, r.kind.fromNames = true ∧ step = .complete j r ∧ answer = r.suggestions) ∨
        step = .names j ∧ answer = id := by
  constructor
  · intro h
    cases step with
    | complete k r =>
      cases hr : r.kind.fromNames with
      | false => simp [reading?, hr] at h
      | true =>
        obtain ⟨rfl, rfl⟩ : k = j ∧ r.suggestions = answer := by simpa [reading?, hr] using h
        exact Or.inl ⟨r, hr, rfl, rfl⟩
    | names k =>
      obtain ⟨rfl, rfl⟩ : k = j ∧ id = answer := by simpa [reading?] using h
      exact Or.inr ⟨rfl, rfl⟩
    | _ => cases h
  · rintro (⟨r, hr, rfl, rfl⟩ | ⟨rfl, rfl⟩)
    · simp [reading?, hr]
    · rfl

end Step

namespace Session

/-- The index of names of a completer, one without a list if there is no such completer. -/
def index (s : Session) (j : Nat) : NameIndex := (s.completers[j]?).getD {}

/-- The completer that a step makes need its list of names. One that is added warm has the number
next to those there are. -/
def needing? (s : Session) : Step → Option Nat
  | .complete j r => if j < s.completers.length ∧ r.selection?.isSome then some j else none
  | .names j => if j < s.completers.length then some j else none
  | .addCompleter warm => if warm then some s.completers.length else none
  | _ => none

/-! ## What one step does -/

theorem index_set (s : Session) {k : Nat} (hk : k < s.completers.length) (index : NameIndex)
    (builds j : Nat) :
    ({ s with completers := s.completers.set k index, builds } : Session).index j =
      if k = j then index else s.index j := by
  unfold Session.index
  split
  · rename_i h
    rw [← h, List.getElem?_set_self hk, Option.getD_some]
  · rename_i h
    rw [List.getElem?_set_ne h]

/-- At the start of a session no completer has a list. -/
theorem index_start (classPath : ClassPath) (workspaces : List Workspace)
    (active : Option WorkspaceId) (j : Nat) :
    ({ classPath, workspaces, active } : Session).index j = {} := by
  cases j <;> rfl

theorem index_of_length_le {s : Session} {j : Nat} (h : s.completers.length ≤ j) :
    s.index j = {} := by
  rw [Session.index, List.getElem?_eq_none h, Option.getD_none]

theorem ask_of_lt {s : Session} {k : Nat} (hk : k < s.completers.length)
    (answer : NameIndex → Answer) :
    s.ask k answer =
      (⟨.items (answer (s.index k)).items, s.builds + (answer (s.index k)).builds,
          (answer (s.index k)).lookups⟩,
        { s with completers := s.completers.set k (answer (s.index k)).index,
                 builds := s.builds + (answer (s.index k)).builds }) := by
  have hindex : s.completers[k]? = some (s.index k) := by
    rw [Session.index, List.getElem?_eq_getElem hk, Option.getD_some]
  rw [ask, hindex]

theorem ask_of_le {s : Session} {k : Nat} (hk : s.completers.length ≤ k)
    (answer : NameIndex → Answer) : s.ask k answer = (s.tell .unknownCompleter, s) := by
  rw [ask, List.getElem?_eq_none hk]

/-- A completer that answers refreshes its index if the answer needs the list. -/
theorem ask_refresh {s : Session} {k : Nat} (hk : k < s.completers.length)
    {answer : NameIndex → Answer} {need : Bool}
    (hindex : ∀ index, (answer index).index = if need then index.refresh s.sources else index)
    (hbuilds : ∀ index, (answer index).builds = if need then index.builds s.sources else 0) :
    (∀ j, (s.ask k answer).2.index j =
        if need ∧ k = j then (s.index j).refresh s.sources else s.index j) ∧
      (s.ask k answer).1.builds = s.builds + (if need then (s.index k).builds s.sources else 0) ∧
      (s.ask k answer).2.builds = (s.ask k answer).1.builds := by
  rw [ask_of_lt hk]
  refine ⟨fun j => ?_, by rw [hbuilds], rfl⟩
  rw [index_set s hk, hindex]
  by_cases hj : k = j
  · subst hj
    cases need <;> simp
  · simp [hj]

theorem names_refresh {s : Session} {k : Nat} (hk : k < s.completers.length) :
    (∀ j, (s.step (.names k)).2.index j =
        if k = j then (s.index j).refresh s.sources else s.index j) ∧
      (s.step (.names k)).1.builds = s.builds + (s.index k).builds s.sources ∧
      (s.step (.names k)).2.builds = (s.step (.names k)).1.builds := by
  rw [step, ask_of_lt hk]
  refine ⟨fun j => ?_, rfl, rfl⟩
  rw [index_set s hk]
  split
  · rename_i hj
    rw [hj]
  · rfl

/-- The index of a completer changes in two ways: its list is dropped, or it is needed and is
refreshed. -/
theorem index_step (s : Session) (step : Step) (j : Nat) :
    (s.step step).2.index j =
      if step.dropping? = some j then {}
      else if s.needing? step = some j then (s.index j).refresh s.sources
      else s.index j := by
  cases step with
  | complete k r =>
    by_cases hk : k < s.completers.length
    · have h := (ask_refresh hk (fun index => (Completer.index_complete s.sources index r).1)
        fun index => (Completer.index_complete s.sources index r).2).1 j
      simpa [Session.step, Step.dropping?, needing?, hk] using h
    · simp [Session.step, ask_of_le (Nat.le_of_not_lt hk), Step.dropping?, needing?, hk]
  | names k =>
    by_cases hk : k < s.completers.length
    · rw [(names_refresh hk).1 j]
      simp [Step.dropping?, needing?, hk]
    · simp [Session.step, ask_of_le (Nat.le_of_not_lt hk), Step.dropping?, needing?, hk]
  | invalidate k =>
    by_cases hk : k < s.completers.length
    · have hindex : s.completers[k]? = some s.completers[k] := List.getElem?_eq_getElem hk
      simp only [Session.step, hindex]
      rw [index_set s hk]
      simp [Step.dropping?, needing?, NameIndex.invalidate]
    · have hindex : s.completers[k]? = none := List.getElem?_eq_none (Nat.le_of_not_lt hk)
      simp only [Session.step, hindex]
      by_cases hj : k = j
      · rw [← hj, index_of_length_le (Nat.le_of_not_lt hk)]
        simp [Step.dropping?]
      · simp [Step.dropping?, needing?, hj]
  | addCompleter warm =>
    rcases Nat.lt_trichotomy j s.completers.length with hj | rfl | hj
    · have hne : s.completers.length ≠ j := Nat.ne_of_gt hj
      cases warm <;>
        simp [Session.step, index, needing?, Step.dropping?, List.getElem?_append_left hj, hne]
    · cases warm <;> simp [Session.step, index, needing?, Step.dropping?]
    · have hne : s.completers.length ≠ j := Nat.ne_of_lt hj
      have hlen : ∀ t : Session, t.completers.length = s.completers.length + 1 →
          t.index j = {} := fun t ht => index_of_length_le (by omega)
      rw [hlen _ (by simp [Session.step]), index_of_length_le (Nat.le_of_lt hj)]
      cases warm <;> simp [needing?, Step.dropping?, hne]
  | servesFor | resolve | activate | putClass | resident | classOf =>
    simp only [Session.step]
    split <;> rfl
  | close | current | addName | addClass | loadable | load => rfl

/-- A step builds a list if it needs one and that which is kept does not serve. -/
theorem builds_step (s : Session) (step : Step) :
    (s.step step).1.builds =
        s.builds + ((s.needing? step).elim 0 fun j => (s.index j).builds s.sources) ∧
      (s.step step).2.builds = (s.step step).1.builds := by
  cases step with
  | complete k r =>
    by_cases hk : k < s.completers.length
    · have h := (ask_refresh hk (fun index => (Completer.index_complete s.sources index r).1)
        fun index => (Completer.index_complete s.sources index r).2).2
      cases hr : r.selection? <;> simpa [Session.step, needing?, hk, hr] using h
    · simp [Session.step, ask_of_le (Nat.le_of_not_lt hk), needing?, hk, tell]
  | names k =>
    by_cases hk : k < s.completers.length
    · simpa [needing?, hk] using (names_refresh hk).2
    · simp [Session.step, ask_of_le (Nat.le_of_not_lt hk), needing?, hk, tell]
  | addCompleter warm =>
    have hfresh : s.index s.completers.length = {} := index_of_length_le (Nat.le_refl _)
    cases warm <;> simp [Session.step, needing?, tell, hfresh]
  | servesFor | invalidate | resolve | activate | putClass | resident | classOf =>
    simp only [Session.step]
    split <;> exact ⟨rfl, rfl⟩
  | close | current | addName | addClass | loadable | load => exact ⟨rfl, rfl⟩

/-- What is read out of the list comes from the names that the index answers with. -/
theorem result_step {s : Session} {step : Step} {j : Nat} {answer : List String → List String}
    (h : step.reading? = some (j, answer)) (hj : j < s.completers.length) :
    (s.step step).1.result = .items (answer ((s.index j).names s.sources)) := by
  rcases Step.reading?_eq_some_iff.1 h with ⟨r, hr, rfl, rfl⟩ | ⟨rfl, rfl⟩
  · rw [step, ask_of_lt hj, Completer.items_of_fromNames hr]
  · rw [step, ask_of_lt hj]
    rfl

/-! ## What a run does -/

/-- The session after a number of steps. -/
def after (s : Session) (steps : List Step) : Session := (s.run steps).2

/-- A run goes on from the session that the steps before have led to. -/
theorem run_append (s : Session) (first second : List Step) :
    s.run (first ++ second) =
      ((s.run first).1 ++ ((s.after first).run second).1, (s.after first).after second) := by
  induction first generalizing s with
  | nil => rfl
  | cons step rest ih =>
    rw [List.cons_append, run, ih]
    rfl

@[simp] theorem after_nil (s : Session) : s.after [] = s := rfl

theorem after_cons (s : Session) (step : Step) (rest : List Step) :
    s.after (step :: rest) = (s.step step).2.after rest := rfl

theorem after_append (s : Session) (first second : List Step) :
    s.after (first ++ second) = (s.after first).after second := by
  rw [after, run_append]

theorem after_concat (s : Session) (steps : List Step) (step : Step) :
    s.after (steps ++ [step]) = ((s.after steps).step step).2 := by
  rw [after_append]
  rfl

@[simp] theorem length_run (s : Session) (steps : List Step) :
    (s.run steps).1.length = steps.length := by
  induction steps generalizing s with
  | nil => rfl
  | cons step rest ih => exact congrArg _ (ih _)

end Session

end JvmCompletion
