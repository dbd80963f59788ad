import JvmCompletion.Proofs.MergedNames
import JvmCompletion.Proofs.Runs
import Mathlib.Data.List.Induction

/-!
# Answers from the last build

A completer that has kept its list answers from sources of the past. Which ones these are can be
told from the steps alone, without looking into any index: `Session.held` goes along a run and keeps
the sources from which a completer has built its list last, until it is told to drop the list. That
each index holds the names of these sources and nothing else is the invariant `HoldsAll`; one step
preserves it, so every run does, and `answer_from_last_build` reads the answers off it.
-/

namespace JvmCompletion

namespace NameIndex

/-- The index that holds the list built from these sources, or none. -/
def builtFrom (held : Option Sources) : NameIndex :=
  ⟨held.map fun old => ⟨old.identity, old.classNames⟩⟩

theorem servesFor_builtFrom {held : Option Sources} {identity : Option WorkspaceId} :
    (builtFrom held).servesFor identity = true ↔ ∃ old ∈ held, old.identity = identity := by
  cases held with
  | none => simp [builtFrom, servesFor]
  | some old => simp [builtFrom, servesFor]

end NameIndex

namespace Session

/-- A step makes a completer build its list: it needs the list, and none is held or one that was
built while another workspace was active. -/
def NeedsBuild (s : Session) (j : Nat) (held : Option Sources) (step : Step) : Prop :=
  s.needing? step = some j ∧ ∀ old ∈ held, old.identity ≠ s.sources.identity

instance (s : Session) (j : Nat) (held : Option Sources) (step : Step) :
    Decidable (s.NeedsBuild j held step) :=
  inferInstanceAs (Decidable (_ ∧ _))

/-- The sources of the list that a completer holds after a step, if it holds one, given those of the
list it held before. -/
def heldAfter (s : Session) (j : Nat) (held : Option Sources) (step : Step) : Option Sources :=
  if step.dropping? = some j then none
  else if s.NeedsBuild j held step then some s.sources
  else held

/-- The sources of the list that a completer holds after a number of steps. -/
def held (s : Session) (j : Nat) (before : Option Sources) : List Step → Option Sources
  | [] => before
  | step :: rest => (s.step step).2.held j (s.heldAfter j before step) rest

/-- In a session that starts without lists, completer `j` builds one at the step that follows
`past`. -/
def Builds (start : Session) (past : List Step) (step : Step) (j : Nat) : Prop :=
  (start.after past).NeedsBuild j (start.held j none past) step

/-- Of the lists that a completer builds in the course of the steps, it builds the last one at the
step that follows `before`. -/
def LastBuild (start : Session) (steps : List Step) (j : Nat) (before : List Step) : Prop :=
  ∃ step rest, steps = before ++ step :: rest ∧ start.Builds before step j ∧
    ∀ more next others, rest = more ++ next :: others →
      ¬ start.Builds (before ++ step :: more) next j

/-- The session as it would be if no completer had kept a list. -/
def emptied (s : Session) : Session := { s with completers := s.completers.map fun _ => {} }

/-! ## The invariant -/

/-- Each index holds the list that was built from the given sources, and no other. -/
def HoldsAll (s : Session) (held : Nat → Option Sources) : Prop :=
  ∀ j, s.index j = NameIndex.builtFrom (held j)

/-- A list that is needed is built exactly if the index has none that serves. -/
theorem needsBuild_iff {s : Session} {held : Nat → Option Sources} (h : s.HoldsAll held)
    (step : Step) (j : Nat) :
    s.NeedsBuild j (held j) step ↔
      s.needing? step = some j ∧ (s.index j).servesFor s.sources.identity = false := by
  rw [NeedsBuild, h j, ← Bool.not_eq_true, NameIndex.servesFor_builtFrom]
  simp

theorem HoldsAll.step {s : Session} {held : Nat → Option Sources} (h : s.HoldsAll held)
    (step : Step) : (s.step step).2.HoldsAll fun j => s.heldAfter j (held j) step := by
  intro j
  have hbuild := needsBuild_iff h step j
  show (s.step step).2.index j = NameIndex.builtFrom (s.heldAfter j (held j) step)
  rw [index_step, heldAfter]
  by_cases hdrop : step.dropping? = some j
  · rw [if_pos hdrop, if_pos hdrop]
    rfl
  rw [if_neg hdrop, if_neg hdrop]
  by_cases hneed : s.needing? step = some j
  · rw [if_pos hneed, NameIndex.refresh]
    cases hserves : (s.index j).servesFor s.sources.identity with
    | true =>
      have hno : ¬ s.NeedsBuild j (held j) step := by simp [hbuild, hserves]
      rw [if_pos rfl, if_neg hno]
      exact h j
    | false =>
      rw [if_neg Bool.false_ne_true, if_pos (hbuild.2 ⟨hneed, hserves⟩)]
      rfl
  · have hno : ¬ s.NeedsBuild j (held j) step := fun hb => hneed hb.1
    rw [if_neg hneed, if_neg hno]
    exact h j

theorem HoldsAll.run {s : Session} {held : Nat → Option Sources} (h : s.HoldsAll held)
    (steps : List Step) : (s.after steps).HoldsAll fun j => s.held j (held j) steps := by
  induction steps generalizing s held with
  | nil => exact h
  | cons step rest ih => exact ih (h.step step)

/-- Without lists at the start, nothing is held from before. -/
theorem holdsAll_none {start : Session} (h : ∀ j, start.index j = {}) (past : List Step) :
    (start.after past).HoldsAll fun j => start.held j none past := by
  have hnone : start.HoldsAll fun _ => none := fun j => h j
  exact hnone.run past

/-! ## The last build -/

theorem held_append (s : Session) (j : Nat) (before : Option Sources) (first second : List Step) :
    s.held j before (first ++ second) = (s.after first).held j (s.held j before first) second := by
  induction first generalizing s before with
  | nil => rfl
  | cons step rest ih => exact ih _ _

/-- A last build stays the last one over a step that builds nothing. -/
theorem LastBuild.concat {start : Session} {past before : List Step} {j : Nat}
    (h : start.LastBuild past j before) {step : Step} (hno : ¬ start.Builds past step j) :
    start.LastBuild (past ++ [step]) j before := by
  obtain ⟨build, rest, rfl, hbuild, hlast⟩ := h
  refine ⟨build, rest ++ [step], by simp, hbuild, fun more next others heq => ?_⟩
  rcases List.eq_nil_or_concat others with rfl | ⟨others, final, rfl⟩
  · obtain ⟨rfl, hstep⟩ := List.append_inj' heq rfl
    obtain rfl : step = next := by simpa using hstep
    exact hno
  · rw [List.concat_eq_append, ← List.cons_append, ← List.append_assoc] at heq
    exact hlast more next others (List.append_inj_left' heq rfl)

/-- What a completer holds comes from its last build. -/
theorem exists_lastBuild_of_held {start : Session} {past : List Step} {j : Nat} {old : Sources}
    (h : start.held j none past = some old) :
    ∃ before, start.LastBuild past j before ∧ old = (start.after before).sources := by
  induction past using List.reverseRecOn generalizing old with
  | nil => cases h
  | append_singleton past step ih =>
    rw [held_append] at h
    change (start.after past).heldAfter j (start.held j none past) step = some old at h
    rw [heldAfter] at h
    by_cases hdrop : step.dropping? = some j
    · rw [if_pos hdrop] at h
      cases h
    rw [if_neg hdrop] at h
    by_cases hbuild : (start.after past).NeedsBuild j (start.held j none past) step
    · rw [if_pos hbuild] at h
      obtain rfl := Option.some.inj h
      exact ⟨past, ⟨step, [], rfl, hbuild, by simp⟩, rfl⟩
    · rw [if_neg hbuild] at h
      obtain ⟨before, hlast, hold⟩ := ih h
      exact ⟨before, hlast.concat hbuild, hold⟩

/-- A completer that needs its list answers with the names of its last build, at which the workspace
was active that is active now. -/
theorem identity_of_lastBuild {start : Session} (hstart : ∀ j, start.index j = {})
    {past : List Step} {step : Step} {j : Nat}
    (hneed : (start.after past).needing? step = some j) :
    ∃ before, start.LastBuild (past ++ [step]) j before ∧
      (start.after before).sources.identity = (start.after past).sources.identity ∧
      ((start.after past).index j).names (start.after past).sources =
        (start.after before).sources.classNames := by
  have hholds := holdsAll_none hstart past
  by_cases hbuild : start.Builds past step j
  · refine ⟨past, ⟨step, [], rfl, hbuild, by simp⟩, rfl, ?_⟩
    have hserves := ((needsBuild_iff hholds step j).1 hbuild).2
    simp [NameIndex.names, NameIndex.refresh, hserves]
  · -- a list is needed and none is built, so one is held that serves
    have hserves : ∃ old ∈ start.held j none past,
        old.identity = (start.after past).sources.identity := by
      by_contra hno
      exact hbuild ⟨hneed, fun old hold he => hno ⟨old, hold, he⟩⟩
    obtain ⟨old, hold, hid⟩ := hserves
    obtain ⟨before, hlast, rfl⟩ := exists_lastBuild_of_held hold
    refine ⟨before, hlast.concat hbuild, hid, ?_⟩
    have hindex : (start.after past).index j = NameIndex.builtFrom (start.held j none past) :=
      hholds j
    rw [hindex, hold]
    exact NameIndex.names_of_built hid

theorem names_of_lastBuild {start : Session} (hstart : ∀ j, start.index j = {}) {past : List Step}
    {step : Step} {j : Nat} (hneed : (start.after past).needing? step = some j) :
    ∃ before, start.LastBuild (past ++ [step]) j before ∧
      ((start.after past).index j).names (start.after past).sources =
        (start.after before).sources.classNames := by
  obtain ⟨before, hlast, -, hnames⟩ := identity_of_lastBuild hstart hneed
  exact ⟨before, hlast, hnames⟩

/-! ## The reports of a run -/

theorem index_emptied (s : Session) (j : Nat) : s.emptied.index j = {} := by
  rw [index, emptied, List.getElem?_map]
  cases s.completers[j]? <;> rfl

/-- Without kept lists a completer answers from the sources as they are. -/
theorem result_step_emptied {s : Session} {step : Step} {j : Nat}
    {answer : List String → List String} (h : step.reading? = some (j, answer))
    (hj : j < s.completers.length) :
    (s.emptied.step step).1.result = .items (answer s.sources.classNames) := by
  have hlen : j < s.emptied.completers.length := by simpa [emptied] using hj
  rw [result_step h hlen, index_emptied]
  rfl

/-- An answer for which the list is not needed does not depend on it. -/
theorem answer_eq_of_needing?_ne {s : Session} {step : Step} {j : Nat}
    {answer : List String → List String} (h : step.reading? = some (j, answer))
    (hj : j < s.completers.length) (hneed : s.needing? step ≠ some j) (first second : List String) :
    answer first = answer second := by
  rcases Step.reading?_eq_some_iff.1 h with ⟨r, -, rfl, rfl⟩ | ⟨rfl, rfl⟩
  · have hnone : r.selection? = none := by simpa [needing?, hj] using hneed
    rw [Request.suggestions, Request.suggestions, hnone]
  · simp [needing?, hj] at hneed

/-- The number of lists built goes up by one at a step that makes a completer build its list, and at
no other. -/
theorem builds_step_iff {start : Session} (hstart : ∀ j, start.index j = {}) (past : List Step)
    (step : Step) :
    ((∃ j, start.Builds past step j) →
        ((start.after past).step step).1.builds = (start.after past).builds + 1) ∧
      ((¬ ∃ j, start.Builds past step j) →
        ((start.after past).step step).1.builds = (start.after past).builds) := by
  have hholds := holdsAll_none hstart past
  have hbuilds := (builds_step (start.after past) step).1
  constructor
  · rintro ⟨j, hbuild⟩
    obtain ⟨hneed, hserves⟩ := (needsBuild_iff hholds step j).1 hbuild
    simpa [hneed, NameIndex.builds, hserves] using hbuilds
  · intro hno
    cases hneed : (start.after past).needing? step with
    | none => simpa [hneed] using hbuilds
    | some j =>
      have hserves : ((start.after past).index j).servesFor
          (start.after past).sources.identity = true := by
        by_contra hfalse
        rw [Bool.not_eq_true] at hfalse
        exact hno ⟨j, (needsBuild_iff hholds step j).2 ⟨hneed, hfalse⟩⟩
      simpa [hneed, NameIndex.builds, hserves] using hbuilds

/-- Whatever a session starts from and whatever has happened in it, a list of names is built at a
step exactly if the step needs the list of a completer that holds none or one for another active
workspace. An answer out of the list comes from the names there were when that completer last built
its list, the step itself included; while the sources still have these names, it is the answer that
would be given if no list had ever been kept. An answer that needs no list is the same for any. -/
theorem answer_from_last_build (classPath : ClassPath) (workspaces : List Workspace)
    (active : Option WorkspaceId) (past : List Step) (step : Step) :
    let start : Session := { classPath, workspaces, active }
    let now := start.after past
    let told := (now.step step).1
    (∀ rest, (start.run (past ++ step :: rest)).1[past.length]? = some told) ∧
      ((∃ j, start.Builds past step j) → told.builds = now.builds + 1) ∧
      ((¬ ∃ j, start.Builds past step j) → told.builds = now.builds) ∧
      ∀ j answer, step.reading? = some (j, answer) → j < now.completers.length →
        (now.needing? step ≠ some j →
          (∀ names, told.result = .items (answer names)) ∧
            told.result = (now.emptied.step step).1.result) ∧
        (now.needing? step = some j →
          ∃ before, start.LastBuild (past ++ [step]) j before ∧
            let built := (start.after before).sources
            told.result = .items (answer built.classNames) ∧
              ((∀ name, built.Lists name ↔ now.sources.Lists name) →
                told.result = (now.emptied.step step).1.result)) := by
  intro start now told
  have hstart : ∀ j, start.index j = {} := by
    intro j
    cases j <;> rfl
  obtain ⟨hsome, hnone⟩ := builds_step_iff hstart past step
  refine ⟨?_, hsome, hnone, ?_⟩
  · intro rest
    rw [run_append, List.getElem?_append_right (by rw [length_run]), length_run, Nat.sub_self]
    rfl
  intro j answer hreading hj
  have hnow : told.result = .items (answer ((now.index j).names now.sources)) :=
    result_step hreading hj
  have hcold : (now.emptied.step step).1.result = .items (answer now.sources.classNames) :=
    result_step_emptied hreading hj
  constructor
  · intro hneed
    have hany := answer_eq_of_needing?_ne hreading hj hneed
    refine ⟨fun names => ?_, ?_⟩
    · rw [hnow, hany _ names]
    · rw [hnow, hcold, hany]
  · intro hneed
    obtain ⟨before, hlast, hnames⟩ := names_of_lastBuild hstart hneed
    rw [hnames] at hnow
    refine ⟨before, hlast, hnow, ?_⟩
    intro hlists
    rw [hnow, hcold, Sources.classNames_congr hlists]

/-- A list that was built before its workspace got another class and was left for a while answers
when the workspace is active again. -/
theorem answer_from_last_build_after_return :
    let start : Session :=
      { classPath := ClassPath.empty,
        workspaces := [Workspace.ofList "v" [⟨"a/A", [], []⟩], Workspace.empty "w"],
        active := some "v" }
    let past : List Step :=
      [.names 0, .putClass "v" ⟨"a/B", [], []⟩, .activate "w", .activate "v"]
    let now := start.after past
    let told := (now.step (.names 0)).1
    told.builds = now.builds ∧ now.sources.Lists "a/B" ∧
      ∃ before, start.LastBuild (past ++ [.names 0]) 0 before ∧
        told.result = .items (start.after before).sources.classNames := by
  intro start past now told
  obtain ⟨-, -, hnone, hanswer⟩ := answer_from_last_build start.classPath start.workspaces
    start.active past (.names 0)
  have hneed : now.needing? (.names 0) = some 0 := by decide
  have hheld : ¬ now.NeedsBuild 0 (start.held 0 none past) (.names 0) := by decide
  refine ⟨hnone ?_, Or.inr ?_, ?_⟩
  · rintro ⟨j, hbuild⟩
    obtain rfl : 0 = j := Option.some.inj (hneed.symm.trans hbuild.1)
    exact hheld hbuild
  · exact ⟨_, rfl, by decide⟩
  · obtain ⟨before, hlast, hresult, -⟩ := (hanswer 0 id rfl (by decide)).2 hneed
    exact ⟨before, hlast, hresult⟩

end Session

end JvmCompletion
