import JvmCompletion.Proofs.Reports

/-!
# Completers do not interfere

The completers of a session share the sources, and what one of them is asked changes nothing for the
others: not their lists, not the sources, and so not their answers. `others_unaffected` says this
for whole runs. All steps that are addressed to one completer can be taken out of a run, and every
step that is left has the same result and asks the runtime for the same classes as before; only the
number of lists built, which all completers share, may be another one.

Two sessions are compared that agree in all but the list of one completer (`AgreeBut`). A step that
is addressed to this completer may be done in one of them alone, any other step is done in both.
-/

namespace JvmCompletion

/-- What is told about a step, without the number of lists that all completers have built. -/
def Report.withoutBuilds (told : Report) : Result × List String := (told.result, told.lookups)

namespace Session

/-- Nothing sets the two sessions apart but the list of completer `j` and the number of lists
built. -/
structure AgreeBut (j : Nat) (s t : Session) : Prop where
  bare : s.bare = t.bare
  length : s.completers.length = t.completers.length
  index : ∀ k, k ≠ j → s.index k = t.index k

variable {j : Nat} {s t : Session}

theorem AgreeBut.refl (j : Nat) (s : Session) : s.AgreeBut j s := ⟨rfl, rfl, fun _ _ => rfl⟩

theorem AgreeBut.trans {u : Session} (h : s.AgreeBut j t) (h' : t.AgreeBut j u) : s.AgreeBut j u :=
  ⟨h.bare.trans h'.bare, h.length.trans h'.length,
    fun k hk => (h.index k hk).trans (h'.index k hk)⟩

/-! ## One step -/

theorem AgreeBut.alike (h : s.AgreeBut j t) {step : Step}
    (hstep : step.addressee? ≠ some j) : Alike step s t where
  classPath := by
    have hpath := congrArg classPath h.bare
    exact hpath
  active := by
    have hactive := congrArg active h.bare
    exact hactive
  length := h.length
  index k hk := by
    refine h.index k fun hkj => hstep ?_
    rw [hk, hkj]
  known id := by
    have hworkspace := congrArg (fun u => (workspace? u id).isSome) h.bare
    exact hworkspace
  sources _ := sources_eq_of_bare_eq h.bare

/-- A step that is not addressed to `j` is told about in the same way. -/
theorem AgreeBut.report (h : s.AgreeBut j t) {step : Step}
    (hstep : step.addressee? ≠ some j) :
    (s.step step).1.withoutBuilds = (t.step step).1.withoutBuilds := by
  have halike := h.alike hstep
  have hworkspace : ∀ id, s.workspace? id = t.workspace? id := by
    intro id
    have hbare := congrArg (fun u => workspace? u id) h.bare
    exact hbare
  rw [Report.withoutBuilds, Report.withoutBuilds, halike.result fun id _ => hworkspace id,
    halike.lookups]

/-- Done in both sessions, a step lets them agree as before. -/
theorem AgreeBut.step (h : s.AgreeBut j t) (step : Step) :
    (s.step step).2.AgreeBut j (t.step step).2 where
  bare := bare_step_congr h.bare step
  length := by rw [length_step, length_step, h.length]
  index k hk := by
    rw [index_step, index_step, needing?_congr h.length, h.index k hk,
      sources_eq_of_bare_eq h.bare]

/-- A step that is addressed to `j` touches nothing but the list of `j`. -/
theorem agreeBut_step (s : Session) {step : Step} (hstep : step.addressee? = some j) :
    (s.step step).2.AgreeBut j s := by
  obtain ⟨hchanges, hjoining⟩ := Step.not_changesSources_of_addressee? hstep
  refine ⟨bare_step_of_not_changes s hchanges, ?_, fun k hk => ?_⟩
  · rw [length_step, hjoining, Nat.add_zero]
  · have hdrop : step.dropping? ≠ some k := by
      intro hdrop
      rw [Step.addressee?_of_dropping? hdrop] at hstep
      exact hk (Option.some.inj hstep)
    have hneed : s.needing? step ≠ some k := by
      intro hneed
      rcases addressee?_of_needing? hneed with haddressee | ⟨rfl, -⟩
      · rw [haddressee] at hstep
        exact hk (Option.some.inj hstep)
      · cases hstep
    rw [index_step, if_neg hdrop, if_neg hneed]

/-! ## A run -/

/-- The steps that are left of a run in which a completer is not addressed. -/
def withoutCompleter (j : Nat) (steps : List Step) : List Step :=
  steps.filter fun step => step.addressee? ≠ some j

theorem AgreeBut.run (h : s.AgreeBut j t) (steps : List Step) :
    ((steps.zip (s.run steps).1).filter fun p => p.1.addressee? ≠ some j).map
        (fun p => p.2.withoutBuilds) =
      (t.run (withoutCompleter j steps)).1.map Report.withoutBuilds := by
  induction steps generalizing s t with
  | nil => rfl
  | cons step rest ih =>
    rw [Session.run, List.zip_cons_cons]
    by_cases hstep : step.addressee? = some j
    · -- only the first session does the step, and nothing is kept of it
      have hrest : withoutCompleter j (step :: rest) = withoutCompleter j rest :=
        List.filter_cons_of_neg (by simp [hstep])
      rw [hrest, List.filter_cons_of_neg (by simp [hstep])]
      exact ih ((agreeBut_step s hstep).trans h)
    · have hrest : withoutCompleter j (step :: rest) = step :: withoutCompleter j rest :=
        List.filter_cons_of_pos (by simp [hstep])
      rw [hrest, List.filter_cons_of_pos (by simp [hstep]), Session.run, List.map_cons,
        List.map_cons, h.report hstep, ih (h.step step)]

/-- In every session, the steps that are addressed to one completer can be left out: all the others
keep their results, and the runtime is asked for the same classes in them. In particular, a step
that is addressed to one completer leaves the list of every other completer what it is, and the step
that follows it is told about as if it had not been there. -/
theorem others_unaffected (start : Session) (steps : List Step) (j : Nat) :
    (start.run (withoutCompleter j steps)).1.map Report.withoutBuilds =
        ((steps.zip (start.run steps).1).filter fun p => p.1.addressee? ≠ some j).map
          (fun p => p.2.withoutBuilds) ∧
      ∀ step : Step, step.addressee? = some j →
        let now := start.after steps
        (∀ k, k ≠ j → (now.step step).2.index k = now.index k) ∧
          ∀ next : Step, next.addressee? ≠ some j →
            ((now.step step).2.step next).1.withoutBuilds = (now.step next).1.withoutBuilds := by
  constructor
  · exact ((AgreeBut.refl j start).run steps).symm
  · intro step hstep now
    have hagree : (now.step step).2.AgreeBut j now := agreeBut_step now hstep
    exact ⟨hagree.index, fun next hnext => hagree.report hnext⟩

/-- Completer 1 drops its list and builds a new one; completer 0 keeps answering from its own, which
was built before a class was added. -/
theorem others_unaffected_by_new_list :
    let start : Session :=
      { classPath := ClassPath.ofLists ["a/B"] [], workspaces := [], active := none }
    let steps : List Step := [.names 0, .addCompleter true, .addName "a/C", .invalidate 1]
    let now := start.after steps
    withoutCompleter 1 (steps ++ [.names 1, .names 0]) =
        [.names 0, .addCompleter true, .addName "a/C", .names 0] ∧
      (Step.names 1).addressee? = some 1 ∧ (Step.names 0).addressee? ≠ some 1 ∧
      (now.step (.names 1)).1.builds ≠ now.builds ∧
      ((now.step (.names 1)).2.step (.names 0)).1.withoutBuilds =
        (now.step (.names 0)).1.withoutBuilds := by
  intro start steps now
  refine ⟨rfl, rfl, by decide, by decide, ?_⟩
  exact ((others_unaffected start steps 1).2 (.names 1) rfl).2 (.names 0) (by decide)

end Session

end JvmCompletion
