import JvmCompletion.Proofs.ClassPathAdditions
import JvmCompletion.Proofs.Runs

/-!
# The sources of a session and its history

Of all that is done in a session, only putting and adding classes, adding names and changing the
active workspace has an effect on the sources. What a workspace holds under a name is the class it
has received last under that name, and what the class path loads by a binary name is the class of
that name that was added to it last, at the start of the session or in the course of it.
-/

namespace JvmCompletion

/-- What is got from a store that keeps the last hit, after values were put into it one after
another: the last of them that is a hit, and what was there before if none is. -/
theorem get_foldl_put {σ α : Type} {put : σ → α → σ} (get : σ → Option α) {hits : α → Bool}
    (h : ∀ store value, get (put store value) = if hits value then some value else get store)
    (values : List α) (store : σ) :
    get (values.foldl put store) = (values.reverse.find? hits).or (get store) := by
  induction values generalizing store with
  | nil => rfl
  | cons value rest ih =>
    rw [List.foldl_cons, ih, h, List.reverse_cons, List.find?_append, Option.or_assoc]
    congr 1
    cases hvalue : hits value <;> simp [hvalue]

/-- The class file received last under a name. -/
def ClassFile.lastNamed? (name : String) (received : List ClassFile) : Option ClassFile :=
  received.reverse.find? fun c => c.name == name

/-- The class of the runtime added last under a name, whichever way its packages are separated. -/
def ReflectedClass.lastNamed? (name : String) (added : List ReflectedClass) :
    Option ReflectedClass :=
  added.reverse.find? fun c => ClassName.toBinary c.name == ClassName.toBinary name

theorem Workspace.class?_foldl_putClass (received : List ClassFile) (w : Workspace)
    (name : String) :
    (received.foldl putClass w).class? name =
      (ClassFile.lastNamed? name received).or (w.class? name) := by
  refine get_foldl_put (fun w => class? w name) (fun w c => ?_) received w
  simp only [class?_putClass, beq_iff_eq, eq_comm (a := name)]

theorem Workspace.class?_ofList (id : WorkspaceId) (classes : List ClassFile) (name : String) :
    (ofList id classes).class? name = ClassFile.lastNamed? name classes :=
  (class?_foldl_putClass classes (empty id) name).trans Option.or_none

/-- Putting more classes into a workspace is as good as having made it of them, too. -/
theorem Workspace.foldl_putClass_ofList (id : WorkspaceId) (classes received : List ClassFile) :
    received.foldl putClass (ofList id classes) = ofList id (classes ++ received) :=
  List.foldl_append.symm

/-- A workspace that is made of classes has their names and no others. -/
theorem Workspace.mem_residentNames_ofList {id : WorkspaceId} {classes : List ClassFile}
    {name : String} : name ∈ (ofList id classes).residentNames ↔ ∃ c ∈ classes, c.name = name := by
  rw [← isSome_class?_iff, class?_ofList]
  simp [ClassFile.lastNamed?, List.find?_isSome]

@[simp] theorem Workspace.id_foldl_putClass (received : List ClassFile) (w : Workspace) :
    (received.foldl putClass w).id = w.id := by
  induction received generalizing w with
  | nil => rfl
  | cons c rest ih => rw [List.foldl_cons, ih, id_putClass]

/-- A class path lists the names it was made of and then the classes, in the order of both. -/
theorem ClassPath.names_ofLists (names : List String) (classes : List ReflectedClass) :
    (ofLists names classes).names =
      names.map ClassName.toInternal ++ classes.map fun c => ClassName.toInternal c.name := by
  rw [ofLists_eq_ofAdditions, names_ofAdditions, List.map_append, List.map_map, List.map_map]
  rfl

theorem ClassPath.load?_foldl_addClass (added : List ReflectedClass) (p : ClassPath)
    (name : String) :
    (added.foldl addClass p).load? (ClassName.toBinary name) =
      (ReflectedClass.lastNamed? name added).or (p.load? (ClassName.toBinary name)) := by
  refine get_foldl_put (fun p => load? p (ClassName.toBinary name)) (fun p c => ?_) added p
  simp only [load?_addClass, beq_iff_eq, eq_comm (a := ClassName.toBinary name)]

/-- Names alone give nothing to load. -/
theorem ClassPath.load?_foldl_addName (names : List String) (p : ClassPath) (binaryName : String) :
    (names.foldl addName p).load? binaryName = p.load? binaryName := by
  induction names generalizing p with
  | nil => rfl
  | cons name rest ih => rw [List.foldl_cons, ih, load?_addName]

theorem ClassPath.load?_ofLists (names : List String) (classes : List ReflectedClass)
    (name : String) :
    (ofLists names classes).load? (ClassName.toBinary name) =
      ReflectedClass.lastNamed? name classes := by
  rw [ofLists, load?_foldl_addClass, load?_foldl_addName]
  exact Option.or_none

namespace Step

/-- The class that a step puts into the workspace with an identity. -/
def received? (id : WorkspaceId) : Step → Option ClassFile
  | .putClass k c => if k = id then some c else none
  | _ => none

/-- The class that a step adds to the class path. -/
def added? : Step → Option ReflectedClass
  | .addClass c => some c
  | _ => none

/-- The name that a step adds to the class path without a class. -/
def bareName? : Step → Option String
  | .addName name => some name
  | _ => none

/-- What a step adds to the class path, with a class or without. -/
def addition? : Step → Option ClassPath.Addition
  | .addName name => some (.bare name)
  | .addClass c => some (.known c)
  | _ => none

/-- The internal name that a step adds to the list of the class path. -/
def listed? : Step → Option String
  | .addName name => some (ClassName.toInternal name)
  | .addClass c => some (ClassName.toInternal c.name)
  | _ => none

theorem listed?_eq_some_iff {step : Step} {name : String} :
    step.listed? = some name ↔
      (∃ bare, step.bareName? = some bare ∧ ClassName.toInternal bare = name) ∨
        ∃ c, step.added? = some c ∧ ClassName.toInternal c.name = name := by
  cases step <;> simp [listed?, bareName?, added?]

/-- What a step makes of the class path. -/
def extend : Step → ClassPath → ClassPath
  | .addName name, p => p.addName name
  | .addClass c, p => p.addClass c
  | _, p => p

/-- What a step makes of a workspace. -/
def fill : Step → Workspace → Workspace
  | .putClass id c, w => if w.id = id then w.putClass c else w
  | _, w => w

@[simp] theorem id_fill (step : Step) (w : Workspace) : (step.fill w).id = w.id := by
  cases step with
  | putClass =>
    rw [fill]
    split <;> rfl
  | _ => rfl

theorem fill_eq (step : Step) (w : Workspace) :
    step.fill w = (step.received? w.id).toList.foldl Workspace.putClass w := by
  cases step with
  | putClass id c => by_cases h : id = w.id <;> simp [fill, received?, h, eq_comm]
  | _ => rfl

/-- Whether a step is one of those that change the sources. -/
def changesSources : Step → Bool
  | .activate _ | .close | .putClass .. | .addName _ | .addClass _ => true
  | _ => false

end Step

namespace Session

/-! ## One step -/

theorem workspace?_putClass (s : Session) (id k : WorkspaceId) (c : ClassFile) :
    (s.putClass id c).workspace? k =
      (s.workspace? k).map fun w => if w.id = id then w.putClass c else w := by
  rw [workspace?, putClass, List.find?_map]
  congr 2
  funext w
  simp only [Function.comp_apply]
  split <;> rfl

theorem id_of_workspace? {s : Session} {id : WorkspaceId} {w : Workspace}
    (h : s.workspace? id = some w) : w.id = id := by
  simpa using List.find?_some h

/-- Putting a class into a workspace that does not exist changes nothing, as the step says. -/
theorem step_putClass (s : Session) (id : WorkspaceId) (c : ClassFile) :
    (s.step (.putClass id c)).2 = s.putClass id c := by
  simp only [step]
  cases hput : (s.putClass id c).workspace? id with
  | some w => rfl
  | none =>
    have hnone : s.workspace? id = none := by
      rw [workspace?_putClass] at hput
      exact Option.map_eq_none_iff.1 hput
    have hne : ∀ w ∈ s.workspaces, w.id ≠ id := by
      intro w hw hid
      exact List.find?_eq_none.1 hnone w hw (by simp [hid])
    have hsame : s.workspaces.map (fun w => if w.id = id then w.putClass c else w) =
        s.workspaces := by
      refine (List.map_congr_left fun w hw => ?_).trans (List.map_id _)
      rw [if_neg (hne w hw)]
      rfl
    simp only [putClass, hsame]

/-- What a session is without its completers. -/
def bare (s : Session) : Session := { s with completers := [], builds := 0 }

theorem bare_ask (s : Session) (j : Nat) (answer : NameIndex → Answer) :
    (s.ask j answer).2.bare = s.bare := by
  rw [ask]
  split <;> rfl

theorem workspaces_ask (s : Session) (j : Nat) (answer : NameIndex → Answer) :
    (s.ask j answer).2.workspaces = s.workspaces := by
  have h := congrArg workspaces (bare_ask s j answer)
  exact h

theorem active_ask (s : Session) (j : Nat) (answer : NameIndex → Answer) :
    (s.ask j answer).2.active = s.active := by
  have h := congrArg active (bare_ask s j answer)
  exact h

theorem length_ask (s : Session) (j : Nat) (answer : NameIndex → Answer) :
    (s.ask j answer).2.completers.length = s.completers.length := by
  rw [ask]
  split
  · rfl
  · exact List.length_set

theorem sources_ask (s : Session) (j : Nat) (answer : NameIndex → Answer) :
    (s.ask j answer).2.sources = s.sources := by
  have h := congrArg sources (bare_ask s j answer)
  exact h

/-- A step of another kind leaves all but the completers as it is. -/
theorem bare_step_of_not_changes (s : Session) {step : Step} (h : step.changesSources = false) :
    (s.step step).2.bare = s.bare := by
  cases step with
  | complete | names => exact bare_ask ..
  | servesFor | invalidate | resolve | resident | classOf =>
    simp only [Session.step]
    split <;> rfl
  | current | loadable | load | addCompleter => rfl
  | activate | close | putClass | addName | addClass => cases h

/-- What a step does to the sources does not depend on the completers. -/
theorem bare_step_congr {s t : Session} (h : s.bare = t.bare) (step : Step) :
    (s.step step).2.bare = (t.step step).2.bare := by
  obtain ⟨path, workspaces, active, indexes, builds⟩ := s
  obtain ⟨path', workspaces', active', indexes', builds'⟩ := t
  obtain ⟨rfl, rfl, rfl⟩ : path = path' ∧ workspaces = workspaces' ∧ active = active' := by
    simpa [bare] using h
  cases hchanges : step.changesSources with
  | false => rw [bare_step_of_not_changes _ hchanges, bare_step_of_not_changes _ hchanges]; rfl
  | true =>
    cases step with
    | activate id =>
      simp only [Session.step, workspace?]
      split <;> rfl
    | putClass id c =>
      rw [step_putClass, step_putClass]
      rfl
    | close | addName | addClass => rfl
    | _ => cases hchanges

theorem classPath_step (s : Session) (step : Step) :
    (s.step step).2.classPath = step.extend s.classPath := by
  cases step with
  | complete | names => exact congrArg Sources.classPath (sources_ask ..)
  | putClass =>
    rw [step_putClass]
    rfl
  | servesFor | invalidate | resolve | activate | resident | classOf =>
    simp only [Session.step]
    split <;> rfl
  | close | current | addName | addClass | loadable | load | addCompleter => rfl

theorem workspaces_step (s : Session) (step : Step) :
    (s.step step).2.workspaces = s.workspaces.map step.fill := by
  have same : ∀ t : Session, t.workspaces = s.workspaces → (∀ w, step.fill w = w) →
      t.workspaces = s.workspaces.map step.fill := by
    intro t ht hfill
    rw [ht, List.map_congr_left fun w _ => hfill w, List.map_id']
  cases step with
  | complete | names => exact same _ (workspaces_ask ..) fun _ => rfl
  | putClass =>
    rw [step_putClass]
    rfl
  | servesFor | invalidate | resolve | activate | resident | classOf =>
    refine same _ ?_ fun _ => rfl
    simp only [Session.step]
    split <;> rfl
  | close | current | addName | addClass | loadable | load | addCompleter =>
    exact same _ rfl fun _ => rfl

/-- A workspace receives what a step puts into it and nothing else. -/
theorem workspace?_step (s : Session) (step : Step) (id : WorkspaceId) :
    (s.step step).2.workspace? id =
      (s.workspace? id).map fun w => (step.received? id).toList.foldl Workspace.putClass w := by
  have hid : (fun w : Workspace => w.id == id) ∘ step.fill = fun w => w.id == id := by
    funext w
    simp
  rw [workspace?, workspaces_step, List.find?_map, hid]
  refine Option.map_congr fun w hw => ?_
  rw [Step.fill_eq, id_of_workspace? hw]

/-- The class path gets what a step adds to it and nothing else. -/
theorem load?_step (s : Session) (step : Step) (binaryName : String) :
    (s.step step).2.classPath.load? binaryName =
      (step.added?.toList.foldl ClassPath.addClass s.classPath).load? binaryName := by
  rw [classPath_step]
  cases step <;> rfl

/-! ## A run -/

/-- Only the steps that change the sources count for them. -/
theorem bare_after_filter (s : Session) (steps : List Step) :
    (s.after steps).bare = (s.after (steps.filter Step.changesSources)).bare := by
  have congr : ∀ (steps : List Step) {s t : Session}, s.bare = t.bare →
      (s.after steps).bare = (t.after steps).bare := by
    intro steps
    induction steps with
    | nil => exact id
    | cons step rest ih => exact fun h => ih (bare_step_congr h step)
  induction steps generalizing s with
  | nil => rfl
  | cons step rest ih =>
    cases hchanges : step.changesSources with
    | true =>
      rw [List.filter_cons_of_pos hchanges]
      exact ih _
    | false =>
      rw [List.filter_cons_of_neg (by simp [hchanges])]
      exact (ih _).trans (congr _ (bare_step_of_not_changes s hchanges))

/-- A workspace after a number of steps holds what it held before and has received in them. -/
theorem workspace?_after (s : Session) (steps : List Step) (id : WorkspaceId) :
    (s.after steps).workspace? id =
      (s.workspace? id).map fun w =>
        (steps.filterMap (Step.received? id)).foldl Workspace.putClass w := by
  induction steps generalizing s with
  | nil => exact Option.map_id'.symm
  | cons step rest ih =>
    have hfilter : (step :: rest).filterMap (Step.received? id) =
        (step.received? id).toList ++ rest.filterMap (Step.received? id) := by
      cases h : step.received? id <;> simp [h]
    simp only [hfilter, List.foldl_append]
    rw [after_cons, ih, workspace?_step, Option.map_map]
    rfl

/-- The class path after a number of steps loads what it has loaded before and was added in them. -/
theorem load?_after (s : Session) (steps : List Step) (name : String) :
    (s.after steps).classPath.load? (ClassName.toBinary name) =
      (ReflectedClass.lastNamed? name (steps.filterMap Step.added?)).or
        (s.classPath.load? (ClassName.toBinary name)) := by
  induction steps generalizing s with
  | nil => rfl
  | cons step rest ih =>
    have hfilter : (step :: rest).filterMap Step.added? =
        step.added?.toList ++ rest.filterMap Step.added? := by
      cases h : step.added? <;> simp [h]
    rw [after_cons, ih, load?_step, hfilter, ← ClassPath.load?_foldl_addClass,
      ← ClassPath.load?_foldl_addClass, List.foldl_append]

/-- The class path after a number of steps is the one before them with what they have added. -/
theorem classPath_after (s : Session) (steps : List Step) :
    (s.after steps).classPath =
      (steps.filterMap Step.addition?).foldl ClassPath.add s.classPath := by
  induction steps generalizing s with
  | nil => rfl
  | cons step rest ih =>
    rw [after_cons, ih, classPath_step]
    cases step <;> rfl

/-- The class path after a number of steps lists one name for each time something was added. -/
theorem names_after (s : Session) (steps : List Step) :
    (s.after steps).classPath.names = s.classPath.names ++ steps.filterMap Step.listed? := by
  have hlisted : ∀ step : Step,
      step.addition?.map (fun a => ClassName.toInternal a.name) = step.listed? := by
    intro step
    cases step <;> rfl
  rw [classPath_after, ClassPath.names_foldl_add, List.map_filterMap]
  simp only [hlisted]

end Session

end JvmCompletion
