import JvmCompletion.Proofs.SourceHistory
import JvmCompletion.Proofs.Trimming
import Mathlib.Data.List.Induction
import Mathlib.Data.Set.Card

/-!
# How often lists of names are built

A completer builds its list of names when it needs one and has none for the identity of the active
workspace. Whether it has one can be told from its needs alone: it has the list for the identity
under which it needed one last, unless it was told to drop it since. So the lists that are built in
a session are counted by its steps (`builds_eq_encard_misses`), and what the classes are called and
hold has no part in the count. A list that is counted is one that takes the place of what was kept.
-/

namespace JvmCompletion

namespace NameIndex

/-- The identity of the list that is kept, if one is. -/
def key (index : NameIndex) : Option (Option WorkspaceId) := index.built.map BuiltNames.identity

theorem servesFor_iff_key {index : NameIndex} {identity : Option WorkspaceId} :
    index.servesFor identity = true ↔ index.key = some identity := by
  obtain ⟨built⟩ := index
  cases built with
  | none => simp [servesFor, key]
  | some b => simp [servesFor, key]

@[simp] theorem key_refresh (index : NameIndex) (s : Sources) :
    (index.refresh s).key = some s.identity :=
  servesFor_iff_key.1 (index.servesFor_refresh s)

theorem builds_eq_ite_key (index : NameIndex) (s : Sources) :
    index.builds s = if index.key = some s.identity then 0 else 1 := by
  simp only [builds, servesFor_iff_key]

end NameIndex

namespace Step

/-- A step that has no use for a list of names: a class request that is blank or no open descriptor,
anything about members, a question about the list that is kept, a change of contents. -/
inductive WithoutNames : Step → Prop where
  | blankName {j : Nat} {owner : Option String} {typed : String} :
    Text.trim typed = "" → WithoutNames (.complete j ⟨.internalName, owner, typed⟩)
  | rejectedDescriptor {j : Nat} {owner : Option String} {typed : String} :
    OpenDescriptor.read? typed = none → WithoutNames (.complete j ⟨.descriptor, owner, typed⟩)
  | method {j : Nat} {owner : Option String} {typed : String} :
    WithoutNames (.complete j ⟨.method, owner, typed⟩)
  | field {j : Nat} {owner : Option String} {typed : String} :
    WithoutNames (.complete j ⟨.field, owner, typed⟩)
  | resolve {j : Nat} {owner : String} {kind : MemberKind} : WithoutNames (.resolve j owner kind)
  | servesFor {j : Nat} {identity : Option WorkspaceId} : WithoutNames (.servesFor j identity)
  | putClass {id : WorkspaceId} {c : ClassFile} : WithoutNames (.putClass id c)
  | addName {name : String} : WithoutNames (.addName name)
  | addClass {c : ReflectedClass} : WithoutNames (.addClass c)

/-- Whether a step changes which classes there are or what they hold. -/
def changesContents : Step → Bool
  | .putClass .. | .addName _ | .addClass _ => true
  | _ => false

/-- The identity of the active workspace after a step, given those of the workspaces there are and
the one that was active before. -/
def activeAfter (known : List WorkspaceId) (active : Option WorkspaceId) :
    Step → Option WorkspaceId
  | .activate id => if id ∈ known then some id else active
  | .close => none
  | _ => active

/-- The number of completers that a step adds. -/
def joining : Step → Nat
  | .addCompleter _ => 1
  | _ => 0

/-- The steps are the same, or both change contents, in whatever way. -/
def SameButContents (first second : Step) : Prop :=
  first = second ∨ first.changesContents = true ∧ second.changesContents = true

end Step

namespace Session

/-- A step makes a completer need its list of names: it asks for the list, for the names that go on
from a text that is not blank or for the ways to close an open descriptor, or it adds the completer
as a warm one. -/
inductive Needs (s : Session) : Step → Nat → Prop where
  | names {j : Nat} : j < s.completers.length → Needs s (.names j) j
  | internalName {j : Nat} {owner : Option String} {typed : String} :
    j < s.completers.length → Text.trim typed ≠ "" →
      Needs s (.complete j ⟨.internalName, owner, typed⟩) j
  | descriptor {j : Nat} {owner : Option String} {typed : String} {d : OpenDescriptor} :
    j < s.completers.length → OpenDescriptor.read? typed = some d →
      Needs s (.complete j ⟨.descriptor, owner, typed⟩) j
  | warmUp : Needs s (.addCompleter true) s.completers.length

/-- The latest of the steps that made completer `j` need its list did so while `identity` was
active, and since then the completer has not been told to drop it. -/
def LatestNeed (start : Session) (steps : List Step) (j : Nat) (identity : Option WorkspaceId) :
    Prop :=
  ∃ past step rest, steps = past ++ step :: rest ∧ (start.after past).Needs step j ∧
    (start.after past).sources.identity = identity ∧
    ∀ more next others, rest = more ++ next :: others →
      ¬ (start.after (past ++ step :: more)).Needs next j ∧ next ≠ .invalidate j

/-- The step that follows `past` makes completer `j` need its list, and the latest need, if there
was one and its list has not been dropped, was under another identity than the active one. -/
def Misses (start : Session) (past : List Step) (step : Step) (j : Nat) : Prop :=
  (start.after past).Needs step j ∧
    ∀ identity, start.LatestNeed past j identity → identity ≠ (start.after past).sources.identity

/-- The pairs of a completer and the position of a step at which it misses its list. -/
def misses (start : Session) (steps : List Step) : Set (Nat × Nat) :=
  {p | ∃ past step rest, steps = past ++ step :: rest ∧ p.2 = past.length ∧
    start.Misses past step p.1}

/-! ## Needs -/

theorem needing?_eq_some_iff {s : Session} {step : Step} {j : Nat} :
    s.needing? step = some j ↔ s.Needs step j := by
  constructor
  · intro h
    cases step with
    | names k =>
      obtain ⟨hk, rfl⟩ : k < s.completers.length ∧ k = j := by simpa [needing?] using h
      exact .names hk
    | complete k r =>
      obtain ⟨⟨hk, hselects⟩, rfl⟩ :
          (k < s.completers.length ∧ r.selection?.isSome = true) ∧ k = j := by
        simpa [needing?] using h
      obtain ⟨kind, owner, typed⟩ := r
      cases kind with
      | internalName =>
        refine .internalName hk fun hblank => ?_
        rw [Text.trim_eq_empty_iff] at hblank
        simp [Request.selection?, Completer.longerNames?, hblank] at hselects
      | descriptor =>
        cases hread : OpenDescriptor.read? typed with
        | none => simp [Request.selection?, Completer.closedDescriptors?, hread] at hselects
        | some d => exact .descriptor hk hread
      | method => cases hselects
      | field => cases hselects
    | addCompleter warm =>
      obtain ⟨rfl, rfl⟩ : warm = true ∧ s.completers.length = j := by simpa [needing?] using h
      exact .warmUp
    | _ => cases h
  · rintro (hk | ⟨hk, htyped⟩ | ⟨hk, hread⟩ | _)
    · simp [needing?, hk]
    · rw [ne_eq, Text.trim_eq_empty_iff] at htyped
      simp [needing?, hk, Request.selection?, Completer.longerNames?, htyped]
    · simp [needing?, hk, Request.selection?, Completer.closedDescriptors?, hread]
    · simp [needing?]

theorem Needs.unique {s : Session} {step : Step} {j k : Nat} (hj : s.Needs step j)
    (hk : s.Needs step k) : j = k := by
  rw [← needing?_eq_some_iff] at hj hk
  exact Option.some.inj (hj.symm.trans hk)

theorem not_needs_of_withoutNames {s : Session} {step : Step} (h : step.WithoutNames) (j : Nat) :
    ¬ s.Needs step j := by
  intro hneeds
  cases h with
  | blankName hblank =>
    cases hneeds with
    | internalName _ htyped => exact htyped hblank
  | rejectedDescriptor hnone =>
    cases hneeds with
    | descriptor _ hread => cases hnone.symm.trans hread
  | _ => cases hneeds

/-! ## What one step does to the keys -/

theorem dropping?_eq_some_iff {step : Step} {j : Nat} :
    step.dropping? = some j ↔ step = .invalidate j := by
  cases step <;> simp [Step.dropping?]

theorem key_step (s : Session) (step : Step) (j : Nat) :
    ((s.step step).2.index j).key =
      if step.dropping? = some j then none
      else if s.needing? step = some j then some s.sources.identity
      else (s.index j).key := by
  rw [index_step]
  split
  · rfl
  · split
    · exact NameIndex.key_refresh _ _
    · rfl

theorem builds_step_of_not_needs {s : Session} {step : Step} (h : ∀ j, ¬ s.Needs step j) :
    (s.step step).1.builds = s.builds := by
  have hnone : s.needing? step = none := by
    rw [Option.eq_none_iff_forall_ne_some]
    exact fun j hj => h j (needing?_eq_some_iff.1 hj)
  rw [(builds_step s step).1, hnone]
  rfl

theorem builds_step_of_needs {s : Session} {step : Step} {j : Nat} (h : s.Needs step j) :
    (s.step step).1.builds =
      s.builds + if (s.index j).key = some s.sources.identity then 0 else 1 := by
  rw [(builds_step s step).1, needing?_eq_some_iff.2 h, Option.elim_some,
    NameIndex.builds_eq_ite_key]

/-- A step that makes a completer need its list is counted if what the completer keeps is another
list after it, and not if it is the same. -/
theorem builds_step_eq_ite_index {s : Session} {step : Step} {j : Nat} (h : s.Needs step j) :
    (s.step step).1.builds =
      s.builds + if (s.step step).2.index j = s.index j then 0 else 1 := by
  have hneed : s.needing? step = some j := needing?_eq_some_iff.2 h
  have hkept : step.dropping? ≠ some j := by
    rw [ne_eq, dropping?_eq_some_iff]
    rintro rfl
    cases h
  rw [(builds_step s step).1, hneed, Option.elim_some, NameIndex.builds_eq_ite_refresh, index_step,
    if_neg hkept, if_pos hneed]

/-! ## The latest need -/

/-- A step that has another one put behind it at the end was the last one itself or stands before
it. -/
theorem concat_eq_append_cons_iff {steps past rest : List Step} {last step : Step} :
    steps ++ [last] = past ++ step :: rest ↔
      (steps = past ∧ last = step ∧ rest = []) ∨
        ∃ others, rest = others ++ [last] ∧ steps = past ++ step :: others := by
  constructor
  · intro h
    rcases List.eq_nil_or_concat rest with rfl | ⟨others, final, rfl⟩
    · obtain ⟨rfl, hlast⟩ := List.append_inj' h rfl
      exact Or.inl ⟨rfl, by simpa using hlast, rfl⟩
    · rw [List.concat_eq_append, ← List.cons_append, ← List.append_assoc] at h
      obtain ⟨rfl, hlast⟩ := List.append_inj' h rfl
      obtain rfl : last = final := by simpa using hlast
      exact Or.inr ⟨others, List.concat_eq_append, rfl⟩
  · rintro (⟨rfl, rfl, rfl⟩ | ⟨others, rfl, rfl⟩)
    · rfl
    · rw [List.append_assoc, List.cons_append]

/-- What a step makes of the latest need: it is the latest need itself, it undoes it, or it leaves
it what it was. -/
theorem latestNeed_concat {start : Session} {steps : List Step} {step : Step} {j : Nat}
    {identity : Option WorkspaceId} :
    start.LatestNeed (steps ++ [step]) j identity ↔
      (start.after steps).Needs step j ∧ (start.after steps).sources.identity = identity ∨
      ¬ (start.after steps).Needs step j ∧ step ≠ .invalidate j ∧
        start.LatestNeed steps j identity := by
  constructor
  · rintro ⟨past, need, rest, hsteps, hneeds, hidentity, hlater⟩
    rcases concat_eq_append_cons_iff.1 hsteps with ⟨rfl, rfl, rfl⟩ | ⟨others, rfl, rfl⟩
    · exact Or.inl ⟨hneeds, hidentity⟩
    · obtain ⟨hno, hkept⟩ := hlater others step [] rfl
      refine Or.inr ⟨hno, hkept, past, need, others, rfl, hneeds, hidentity, ?_⟩
      intro more next others' hothers
      exact hlater more next (others' ++ [step]) (by simp [hothers])
  · rintro (⟨hneeds, hidentity⟩ | ⟨hno, hkept, past, need, rest, rfl, hneeds, hidentity, hlater⟩)
    · exact ⟨steps, step, [], rfl, hneeds, hidentity, by simp⟩
    · refine ⟨past, need, rest ++ [step], by simp, hneeds, hidentity, ?_⟩
      intro more next others heq
      rcases concat_eq_append_cons_iff.1 heq with ⟨rfl, rfl, rfl⟩ | ⟨others', rfl, rfl⟩
      · exact ⟨hno, hkept⟩
      · exact hlater more next others' rfl

/-- The list that a completer keeps is the one for its latest need. -/
theorem key_after {start : Session} (hstart : ∀ j, start.index j = {}) (steps : List Step)
    (j : Nat) (identity : Option WorkspaceId) :
    ((start.after steps).index j).key = some identity ↔ start.LatestNeed steps j identity := by
  induction steps using List.reverseRecOn with
  | nil =>
    rw [after_nil, hstart]
    constructor
    · intro h
      cases h
    · rintro ⟨past, step, rest, hsteps, -⟩
      simp at hsteps
  | append_singleton steps step ih =>
    -- the last step drops the list, needs it or leaves it, and the latest need follows suit
    rw [after_concat, key_step, latestNeed_concat, ← ih]
    by_cases hdrop : step = .invalidate j
    · subst hdrop
      have hno : ¬ (start.after steps).Needs (.invalidate j) j := by
        rintro ⟨⟩
      rw [if_pos (dropping?_eq_some_iff.2 rfl)]
      simp [hno]
    rw [if_neg (mt dropping?_eq_some_iff.1 hdrop)]
    by_cases hneeds : (start.after steps).Needs step j
    · rw [if_pos (needing?_eq_some_iff.2 hneeds)]
      simp [hneeds]
    · rw [if_neg (mt needing?_eq_some_iff.1 hneeds)]
      simp [hneeds, hdrop]

/-! ## Counting -/

theorem misses_concat (start : Session) (steps : List Step) (step : Step) :
    start.misses (steps ++ [step]) =
      start.misses steps ∪ {p | p.2 = steps.length ∧ start.Misses steps step p.1} := by
  ext p
  constructor
  · rintro ⟨past, next, rest, hsteps, hposition, hmiss⟩
    rcases concat_eq_append_cons_iff.1 hsteps with ⟨rfl, rfl, rfl⟩ | ⟨others, rfl, rfl⟩
    · exact Or.inr ⟨hposition, hmiss⟩
    · exact Or.inl ⟨past, next, others, rfl, hposition, hmiss⟩
  · rintro (⟨past, next, rest, rfl, hposition, hmiss⟩ | ⟨hposition, hmiss⟩)
    · exact ⟨past, next, rest ++ [step], by simp, hposition, hmiss⟩
    · exact ⟨steps, step, [], rfl, hposition, hmiss⟩

theorem lt_of_mem_misses {start : Session} {steps : List Step} {p : Nat × Nat}
    (h : p ∈ start.misses steps) : p.2 < steps.length := by
  obtain ⟨past, step, rest, rfl, hposition, -⟩ := h
  rw [hposition, List.length_append, List.length_cons]
  omega

/-- As many lists have been built as were missed. -/
theorem encard_misses {start : Session} (hstart : ∀ j, start.index j = {})
    (hbuilds : start.builds = 0) (steps : List Step) :
    (start.misses steps).encard = (start.after steps).builds := by
  induction steps using List.reverseRecOn with
  | nil =>
    have hempty : start.misses [] = ∅ := by
      rw [Set.eq_empty_iff_forall_notMem]
      exact fun p hp => absurd (lt_of_mem_misses hp) (by simp)
    rw [hempty, after_nil, hbuilds, Set.encard_empty]
    rfl
  | append_singleton steps step ih =>
    rw [misses_concat, after_concat, (builds_step _ _).2]
    by_cases hmiss : ∃ j, start.Misses steps step j
    · obtain ⟨j, hneeds, hlatest⟩ := hmiss
      -- a step makes at most one completer need its list
      have hone : {p : Nat × Nat | p.2 = steps.length ∧ start.Misses steps step p.1} =
          {(j, steps.length)} := by
        ext ⟨k, n⟩
        constructor
        · rintro ⟨hn, hk, -⟩
          exact Prod.ext (hk.unique hneeds) hn
        · rintro h
          obtain ⟨rfl, rfl⟩ := Prod.mk.inj h
          exact ⟨rfl, hneeds, hlatest⟩
      -- earlier steps have earlier positions, so the pair is one more
      have hnew : (j, steps.length) ∉ start.misses steps := by
        intro h
        exact absurd (lt_of_mem_misses h) (lt_irrefl _)
      have hkey : ((start.after steps).index j).key ≠
          some (start.after steps).sources.identity := by
        rw [ne_eq, key_after hstart]
        exact fun h => hlatest _ h rfl
      rw [hone, Set.union_singleton, Set.encard_insert_of_notMem hnew, ih,
        builds_step_of_needs hneeds, if_neg hkey]
      rfl
    · have hnone : {p : Nat × Nat | p.2 = steps.length ∧ start.Misses steps step p.1} = ∅ := by
        rw [Set.eq_empty_iff_forall_notMem]
        exact fun p hp => hmiss ⟨p.1, hp.2⟩
      rw [hnone, Set.union_empty, ih]
      congr 1
      by_cases hneeds : ∃ j, (start.after steps).Needs step j
      · obtain ⟨j, hneeds⟩ := hneeds
        have hkey : ((start.after steps).index j).key =
            some (start.after steps).sources.identity := by
          rw [key_after hstart]
          by_contra hno
          exact hmiss ⟨j, hneeds, fun identity h he => hno (he ▸ h)⟩
        rw [builds_step_of_needs hneeds, if_pos hkey, Nat.add_zero]
      · exact (builds_step_of_not_needs fun j hj => hneeds ⟨j, hj⟩).symm

/-- A report tells how many lists have been built up to its step and with it. -/
theorem builds_after_take {start : Session} {steps : List Step} {n : Nat} {told : Report}
    (hn : n < steps.length) (h : (start.run steps).1[n]? = some told) :
    (start.after (steps.take (n + 1))).builds = told.builds := by
  have hsplit : steps = steps.take n ++ steps[n] :: steps.drop (n + 1) := by
    rw [← List.drop_eq_getElem_cons hn, List.take_append_drop]
  have hlen : (start.run (steps.take n)).1.length = n := by
    rw [length_run, List.length_take, Nat.min_eq_left (Nat.le_of_lt hn)]
  rw [hsplit, run_append, List.getElem?_append_right (Nat.le_of_eq hlen), hlen, Nat.sub_self] at h
  have htold : ((start.after (steps.take n)).step steps[n]).1 = told := Option.some.inj h
  rw [← List.take_concat_get hn, List.concat_eq_append, after_concat, (builds_step _ _).2, htold]

/-! ## Runs that differ in contents only -/

/-- The two sessions differ in nothing but what class paths and workspaces hold and what lists were
built from them. -/
structure Agree (s t : Session) : Prop where
  active : s.active = t.active
  ids : s.workspaces.map Workspace.id = t.workspaces.map Workspace.id
  length : s.completers.length = t.completers.length
  keys : ∀ j, (s.index j).key = (t.index j).key
  builds : s.builds = t.builds

theorem Agree.symm {s t : Session} (h : s.Agree t) : t.Agree s :=
  ⟨h.active.symm, h.ids.symm, h.length.symm, fun j => (h.keys j).symm, h.builds.symm⟩

theorem Agree.trans {s t u : Session} (h : s.Agree t) (h' : t.Agree u) : s.Agree u :=
  ⟨h.active.trans h'.active, h.ids.trans h'.ids, h.length.trans h'.length,
    fun j => (h.keys j).trans (h'.keys j), h.builds.trans h'.builds⟩

theorem isSome_workspace?_iff {s : Session} {id : WorkspaceId} :
    (s.workspace? id).isSome = true ↔ id ∈ s.workspaces.map Workspace.id := by
  simp [workspace?, List.find?_isSome]

theorem ids_step (s : Session) (step : Step) :
    (s.step step).2.workspaces.map Workspace.id = s.workspaces.map Workspace.id := by
  rw [workspaces_step, List.map_map]
  exact List.map_congr_left fun w _ => step.id_fill w

theorem length_step (s : Session) (step : Step) :
    (s.step step).2.completers.length = s.completers.length + step.joining := by
  cases step with
  | complete | names => exact length_ask ..
  | invalidate =>
    simp only [Session.step]
    split
    · rfl
    · exact List.length_set
  | addCompleter => exact List.length_append
  | putClass =>
    rw [step_putClass]
    rfl
  | servesFor | resolve | activate | resident | classOf =>
    simp only [Session.step]
    split <;> rfl
  | close | current | addName | addClass | loadable | load => rfl

theorem active_step (s : Session) (step : Step) :
    (s.step step).2.active = step.activeAfter (s.workspaces.map Workspace.id) s.active := by
  cases step with
  | activate id =>
    rw [Step.activeAfter]
    simp only [← isSome_workspace?_iff, Session.step]
    cases s.workspace? id <;> rfl
  | complete | names => exact active_ask ..
  | putClass =>
    rw [step_putClass]
    rfl
  | servesFor | invalidate | resolve | resident | classOf =>
    simp only [Session.step]
    split <;> rfl
  | close | current | addName | addClass | loadable | load | addCompleter => rfl

/-- The active identity is that of a workspace that exists. -/
theorem identity_sources (s : Session) :
    s.sources.identity =
      s.active.bind fun id => if id ∈ s.workspaces.map Workspace.id then some id else none := by
  rw [Sources.identity, sources, Option.map_bind]
  refine Option.bind_congr fun id _ => ?_
  simp only [← isSome_workspace?_iff, Function.comp_apply]
  cases hw : s.workspace? id with
  | none => rfl
  | some w => simp [id_of_workspace? hw]

theorem Agree.identity {s t : Session} (h : s.Agree t) :
    s.sources.identity = t.sources.identity := by
  rw [identity_sources, identity_sources, h.active, h.ids]

theorem Agree.needing? {s t : Session} (h : s.Agree t) (step : Step) :
    s.needing? step = t.needing? step := by
  cases step <;> simp [Session.needing?, h.length]

theorem Agree.step {s t : Session} (h : s.Agree t) (step : Step) :
    (s.step step).2.Agree (t.step step).2 where
  active := by rw [active_step, active_step, h.active, h.ids]
  ids := by rw [ids_step, ids_step, h.ids]
  length := by rw [length_step, length_step, h.length]
  keys j := by rw [key_step, key_step, h.needing? step, h.identity, h.keys j]
  builds := by
    rw [(builds_step s step).2, (builds_step t step).2, (builds_step s step).1,
      (builds_step t step).1, h.needing? step, h.builds]
    congr 2
    funext j
    rw [NameIndex.builds_eq_ite_key, NameIndex.builds_eq_ite_key, h.keys j, h.identity]

/-- A change of contents keeps a session as it was but for the contents. -/
theorem agree_step_of_changesContents (s : Session) {step : Step}
    (h : step.changesContents = true) : (s.step step).2.Agree s := by
  have hother : step.dropping? = none ∧ s.needing? step = none ∧ step.joining = 0 ∧
      step.activeAfter (s.workspaces.map Workspace.id) s.active = s.active := by
    cases step with
    | putClass | addName | addClass => exact ⟨rfl, rfl, rfl, rfl⟩
    | _ => cases h
  obtain ⟨hdrop, hneed, hjoin, hactive⟩ := hother
  refine ⟨?_, ids_step s step, ?_, fun j => ?_, ?_⟩
  · rw [active_step, hactive]
  · rw [length_step, hjoin, Nat.add_zero]
  · rw [key_step, hdrop, hneed]
    rfl
  · rw [(builds_step s step).2, (builds_step s step).1, hneed]
    rfl

theorem Agree.step_sameButContents {s t : Session} (h : s.Agree t) {first second : Step}
    (hsteps : first.SameButContents second) : (s.step first).2.Agree (t.step second).2 := by
  rcases hsteps with rfl | ⟨hfirst, hsecond⟩
  · exact h.step first
  · exact (agree_step_of_changesContents s hfirst).trans
      (h.trans (agree_step_of_changesContents t hsecond).symm)

theorem Agree.builds_run {s t : Session} (h : s.Agree t) {steps steps' : List Step}
    (hsteps : List.Forall₂ Step.SameButContents steps steps') :
    (s.run steps).1.map Report.builds = (t.run steps').1.map Report.builds := by
  induction hsteps generalizing s t with
  | nil => rfl
  | @cons first second rest rest' hfirst _ ih =>
    have hnext := h.step_sameButContents hfirst
    have hreports : (s.step first).1.builds = (t.step second).1.builds := by
      rw [← (builds_step s first).2, ← (builds_step t second).2, hnext.builds]
    rw [run, run, List.map_cons, List.map_cons, hreports, ih hnext]

/-- In every session and after each of its steps, as many lists of names have been built as were
missed: a completer misses its list at a step that makes it need the list if its latest need was
under another identity than the active one, if there was none, or if it has dropped the list since.
A step that has no use for the list builds none, and a step that needs it builds one exactly if the
completer keeps another list after it. What a completer keeps serves for the identity of its latest
need, as long as the list has not been dropped, and so for at most one. Sessions that differ only in
the contents of their class paths and workspaces build their lists at the same steps. -/
theorem builds_eq_encard_misses (classPath : ClassPath) (workspaces : List Workspace)
    (active : Option WorkspaceId) (steps : List Step) :
    let start : Session := { classPath, workspaces, active }
    let now := start.after steps
    (∀ n told, (start.run steps).1[n]? = some told →
        (start.misses (steps.take (n + 1))).encard = told.builds) ∧
      (∀ step : Step, step.WithoutNames → (now.step step).1.builds = now.builds) ∧
      (∀ step j, now.Needs step j → (now.step step).1.builds =
        now.builds + if (now.step step).2.index j = now.index j then 0 else 1) ∧
      (∀ j identity, (now.index j).servesFor identity = true ↔
        start.LatestNeed steps j identity) ∧
      (∀ j identity other, (now.index j).servesFor identity = true →
        (now.index j).servesFor other = true → identity = other) ∧
      (∀ j identity, j < now.completers.length →
        (∀ id ∈ identity, (now.workspace? id).isSome = true) →
        (now.step (.servesFor j identity)).1.result =
          .flag ((now.index j).servesFor identity)) ∧
      ∀ (classPath' : ClassPath) (workspaces' : List Workspace) (steps' : List Step),
        workspaces'.map Workspace.id = workspaces.map Workspace.id →
        List.Forall₂ Step.SameButContents steps steps' →
        let start' : Session := { classPath := classPath', workspaces := workspaces', active }
        (start'.run steps').1.map Report.builds = (start.run steps).1.map Report.builds := by
  intro start now
  have hstart : ∀ j, start.index j = {} := index_start classPath workspaces active
  have hserves : ∀ j identity, (now.index j).servesFor identity = true ↔
      start.LatestNeed steps j identity := by
    intro j identity
    rw [NameIndex.servesFor_iff_key, key_after hstart]
  refine ⟨?_, ?_, fun step j => builds_step_eq_ite_index, hserves, ?_, ?_, ?_⟩
  · intro n told htold
    have hn : n < steps.length := by
      have hlt := (List.getElem?_eq_some_iff.1 htold).1
      rwa [length_run] at hlt
    rw [encard_misses hstart rfl, builds_after_take hn htold]
  · intro step hstep
    exact builds_step_of_not_needs (not_needs_of_withoutNames hstep)
  · intro j identity other hidentity hother
    rw [NameIndex.servesFor_iff_key] at hidentity hother
    exact Option.some.inj (hidentity.symm.trans hother)
  · intro j identity hj hknown
    have hindex : now.completers[j]? = some (now.index j) := by
      rw [Session.index, List.getElem?_eq_getElem hj, Option.getD_some]
    have hall : identity.all (fun id => (now.workspace? id).isSome) = true := by
      cases identity with
      | none => rfl
      | some id => exact hknown id rfl
    simp only [Session.step, hindex, hall]
    rfl
  · intro classPath' workspaces' steps' hids hsteps start'
    have hagree : start.Agree start' := by
      refine ⟨rfl, hids.symm, rfl, fun j => ?_, rfl⟩
      rw [hstart, index_start]
    exact (hagree.builds_run hsteps).symm

/-- A list that is needed twice, dropped, needed again and needed for another workspace is built
three times, whatever is put where in between. -/
theorem builds_eq_encard_misses_of_switch :
    let start : Session :=
      { classPath := ClassPath.empty, workspaces := [Workspace.empty "v", Workspace.empty "w"],
        active := some "v" }
    let steps : List Step := [.names 0, .putClass "v" ⟨"a/B", [], []⟩, .names 0, .invalidate 0,
      .complete 0 ⟨.descriptor, none, "La"⟩, .activate "w", .complete 0 ⟨.internalName, none, "a"⟩]
    let steps' : List Step := [.names 0, .addName "b/C", .names 0, .invalidate 0,
      .complete 0 ⟨.descriptor, none, "La"⟩, .activate "w", .complete 0 ⟨.internalName, none, "a"⟩]
    let now := start.after steps
    (∃ told, (start.run steps).1[6]? = some told ∧ told.builds = 3 ∧
        (start.misses (steps.take 7)).encard = told.builds) ∧
      (Step.WithoutNames (.complete 0 ⟨.internalName, none, " "⟩) ∧
        (now.step (.complete 0 ⟨.internalName, none, " "⟩)).1.builds = now.builds) ∧
      (now.Needs (.names 0) 0 ∧ (now.step (.names 0)).1.builds = now.builds) ∧
      (now.Needs (.addCompleter true) 1 ∧
        (now.step (.addCompleter true)).1.builds = now.builds + 1) ∧
      (0 < now.completers.length ∧ (now.workspace? "w").isSome = true ∧
        (now.step (.servesFor 0 (some "w"))).1.result = .flag true ∧
        start.LatestNeed steps 0 (some "w")) ∧
      List.Forall₂ Step.SameButContents steps steps' ∧
      (start.run steps').1.map Report.builds = (start.run steps).1.map Report.builds := by
  obtain ⟨hcount, hquiet, hreplaces, hserves, -, hreport, hruns⟩ :=
    builds_eq_encard_misses ClassPath.empty [Workspace.empty "v", Workspace.empty "w"] (some "v")
      [.names 0, .putClass "v" ⟨"a/B", [], []⟩, .names 0, .invalidate 0,
        .complete 0 ⟨.descriptor, none, "La"⟩, .activate "w",
        .complete 0 ⟨.internalName, none, "a"⟩]
  have hblank : Step.WithoutNames (.complete 0 ⟨.internalName, none, " "⟩) :=
    .blankName (by decide)
  have hagain := hreplaces (.names 0) 0 (.names (by decide))
  have hwarm := hreplaces (.addCompleter true) 1 .warmUp
  refine ⟨⟨_, rfl, ?_, hcount 6 _ rfl⟩, ⟨hblank, hquiet _ hblank⟩, ⟨.names (by decide), ?_⟩,
    ⟨.warmUp, ?_⟩, ⟨?_, ?_, ?_, ?_⟩, ?_⟩
  · decide
  · rwa [if_pos] at hagain
    rw [index_step, if_neg (by decide), if_pos (by decide), NameIndex.refresh_eq_self_iff]
    decide
  · rwa [if_neg] at hwarm
    intro h
    have hkeys := congrArg NameIndex.key h
    revert hkeys
    decide
  · decide
  · decide
  · refine (hreport 0 (some "w") (by decide) ?_).trans (congrArg Result.flag ?_)
    · rintro id ⟨⟩
      decide
    · decide
  · refine (hserves 0 (some "w")).1 ?_
    decide
  · refine (and_iff_left_of_imp fun hsteps => hruns ClassPath.empty
      [Workspace.empty "v", Workspace.empty "w"] _ rfl hsteps).2 ?_
    refine .cons (Or.inl rfl) (.cons (Or.inr ⟨rfl, rfl⟩) (.cons (Or.inl rfl) ?_))
    exact .cons (Or.inl rfl) (.cons (Or.inl rfl) (.cons (Or.inl rfl) (.cons (Or.inl rfl) .nil)))

end Session

end JvmCompletion
