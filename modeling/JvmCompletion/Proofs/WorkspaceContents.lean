import JvmCompletion.Proofs.Members
import JvmCompletion.Proofs.MergedNames
import JvmCompletion.Proofs.Reports

/-!
# The contents of a workspace

Of the classes that are put into a workspace it keeps the last one of each name, and that is all
there is to tell about them: two workspaces of one identity that have the same class under each name
(`SameContents`) list the same names, and no step of a session has another report with one than with
the other. Classes of different names can therefore be put in either order, although the order in
which the names are listed may be another one then.
-/

namespace JvmCompletion

/-- Tables in which the same is found under each key have the same keys, in whatever order. -/
theorem Table.keys_perm {α : Type} {t u : Table α} (h : ∀ key, t.find? key = u.find? key) :
    t.keys.Perm u.keys := by
  refine (List.perm_ext_iff_of_nodup t.nodup_keys u.nodup_keys).2 fun key => ?_
  have hkeys : key ∈ t.keys ↔ key ∈ u.keys := by
    rw [← isSome_find?_iff, ← isSome_find?_iff, h]
  exact hkeys

namespace Workspace

/-! ## The last class of each name -/

theorem nodup_residentNames (w : Workspace) : w.residentNames.Nodup := w.classes.nodup_keys

theorem size_eq_length_residentNames (w : Workspace) : w.size = w.residentNames.length :=
  w.classes.size_eq_length_keys

theorem isEmpty_iff {w : Workspace} : w.isEmpty = true ↔ w.residentNames = [] := Table.isEmpty_iff

theorem isEmpty_ofList_iff {id : WorkspaceId} {classes : List ClassFile} :
    (ofList id classes).isEmpty = true ↔ classes = [] := by
  rw [isEmpty_iff, List.eq_nil_iff_forall_not_mem, List.eq_nil_iff_forall_not_mem]
  simp only [mem_residentNames_ofList]
  constructor
  · intro hnone c hc
    exact hnone c.name ⟨c, hc, rfl⟩
  · rintro hnone _ ⟨c, hc, -⟩
    exact hnone c hc

end Workspace

theorem ClassFile.lastNamed?_eq_some_iff {name : String} {received : List ClassFile}
    {c : ClassFile} :
    lastNamed? name received = some c ↔
      ∃ before after, received = before ++ c :: after ∧ c.name = name ∧
        ∀ later ∈ after, later.name ≠ name := by
  rw [lastNamed?, List.find?_eq_findSome?_guard, findSome?_reverse_eq_some_iff]
  simp only [Option.guard_eq_some_iff, Option.guard_eq_none_iff, beq_iff_eq, beq_eq_false_iff_ne]
  constructor
  · rintro ⟨before, _, after, hreceived, ⟨rfl, hname⟩, hafter⟩
    exact ⟨before, after, hreceived, hname, hafter⟩
  · rintro ⟨before, after, hreceived, hname, hafter⟩
    exact ⟨before, c, after, hreceived, ⟨rfl, hname⟩, hafter⟩

/-! ## Workspaces with the same contents -/

/-- The workspaces have the same identity and the same class under each name. -/
structure Workspace.SameContents (w v : Workspace) : Prop where
  id : w.id = v.id
  found : ∀ name, w.class? name = v.class? name

namespace Workspace.SameContents

variable {w v : Workspace}

theorem refl (w : Workspace) : w.SameContents w := ⟨rfl, fun _ => rfl⟩

theorem residentNames (h : w.SameContents v) : w.residentNames.Perm v.residentNames :=
  Table.keys_perm h.found

theorem size (h : w.SameContents v) : w.size = v.size := by
  rw [size_eq_length_residentNames, size_eq_length_residentNames, h.residentNames.length_eq]

theorem isEmpty (h : w.SameContents v) : w.isEmpty = v.isEmpty := by
  rw [Bool.eq_iff_iff, isEmpty_iff, isEmpty_iff, ← List.length_eq_zero_iff,
    ← List.length_eq_zero_iff, h.residentNames.length_eq]

theorem putClass (h : w.SameContents v) (c : ClassFile) :
    (w.putClass c).SameContents (v.putClass c) where
  id := h.id
  found name := by rw [class?_putClass, class?_putClass, h.found]

theorem foldl_putClass (h : w.SameContents v) (classes : List ClassFile) :
    (classes.foldl Workspace.putClass w).SameContents (classes.foldl Workspace.putClass v) := by
  induction classes generalizing w v with
  | nil => exact h
  | cons c rest ih => exact ih (h.putClass c)

end Workspace.SameContents

namespace Workspace

/-- Of two classes of different names neither replaces the other. -/
theorem sameContents_putClass_swap (w : Workspace) {c d : ClassFile} (h : c.name ≠ d.name) :
    ((w.putClass c).putClass d).SameContents ((w.putClass d).putClass c) where
  id := rfl
  found name := by
    simp only [class?_putClass]
    by_cases hd : name = d.name
    · have hc : name ≠ c.name := fun hc => h (hc.symm.trans hd)
      rw [if_pos hd, if_neg hc, if_pos hd]
    · rw [if_neg hd, if_neg hd]

theorem sameContents_ofList_swap (id : WorkspaceId) (before after : List ClassFile)
    {c d : ClassFile} (h : c.name ≠ d.name) :
    (ofList id (before ++ c :: d :: after)).SameContents
      (ofList id (before ++ d :: c :: after)) := by
  rw [ofList, ofList, List.foldl_append, List.foldl_append]
  exact (sameContents_putClass_swap _ h).foldl_putClass after

end Workspace

/-! ## What is completed in them -/

/-- The sources have one class path, and active workspaces with the same contents or none. -/
inductive Sources.SameContents : Sources → Sources → Prop where
  | closed (path : ClassPath) : SameContents ⟨path, none⟩ ⟨path, none⟩
  | opened (path : ClassPath) {w v : Workspace} (h : w.SameContents v) :
      SameContents ⟨path, some w⟩ ⟨path, some v⟩

namespace Sources.SameContents

variable {s t : Sources}

theorem identity (h : s.SameContents t) : s.identity = t.identity := by
  cases h with
  | closed => rfl
  | opened _ h => exact congrArg some h.id

theorem classNames (h : s.SameContents t) : s.classNames = t.classNames := by
  cases h with
  | closed => rfl
  | opened path h =>
    refine Sources.classNames_congr fun name => ?_
    simp only [Lists, Option.mem_some_iff, exists_eq_left', h.residentNames.mem_iff]

theorem resident? (h : s.SameContents t) (name : String) : s.resident? name = t.resident? name := by
  cases h with
  | closed => rfl
  | opened _ h => exact h.found name

theorem classPath (h : s.SameContents t) : s.classPath = t.classPath := by
  cases h <;> rfl

theorem signatures? (h : s.SameContents t) (owner : String) (kind : MemberKind) :
    s.signatures? owner kind = t.signatures? owner kind := by
  rw [signatures?_eq, signatures?_eq, h.resident?, h.classPath]

theorem lookups (h : s.SameContents t) (owner : String) : s.lookups owner = t.lookups owner := by
  rw [lookups_eq, lookups_eq, h.resident?]

theorem refresh (h : s.SameContents t) (index : NameIndex) : index.refresh s = index.refresh t := by
  rw [NameIndex.refresh, NameIndex.refresh, h.identity, h.classNames]

theorem builds (h : s.SameContents t) (index : NameIndex) : index.builds s = index.builds t := by
  rw [NameIndex.builds, NameIndex.builds, h.identity]

theorem names (h : s.SameContents t) (index : NameIndex) : index.names s = index.names t := by
  rw [NameIndex.names, NameIndex.names, h.refresh]

theorem completeNames (h : s.SameContents t) (index : NameIndex) (selection : Option Selection) :
    Completer.completeNames s index selection = Completer.completeNames t index selection := by
  cases selection with
  | none => rfl
  | some => rw [Completer.completeNames, Completer.completeNames, h.names, h.refresh, h.builds]

theorem completeMembers (h : s.SameContents t) (index : NameIndex) (kind : MemberKind)
    (owner typed : String) :
    Completer.completeMembers s index kind owner typed =
      Completer.completeMembers t index kind owner typed := by
  rw [Completer.completeMembers, Completer.completeMembers, h.signatures?, h.lookups]

theorem complete (h : s.SameContents t) (index : NameIndex) (r : Request) :
    Completer.complete s index r = Completer.complete t index r := by
  obtain ⟨kind, owner, typed⟩ := r
  cases kind with
  | internalName => exact h.completeNames index (Completer.longerNames? typed)
  | descriptor => exact h.completeNames index (Completer.closedDescriptors? typed)
  | method => exact h.completeMembers index .method (owner.getD "") typed
  | field => exact h.completeMembers index .field (owner.getD "") typed

end Sources.SameContents

namespace Session

/-- The sessions are one but for the order in which their workspaces list their classes. -/
structure SameContents (s t : Session) : Prop where
  classPath : s.classPath = t.classPath
  active : s.active = t.active
  completers : s.completers = t.completers
  builds : s.builds = t.builds
  workspaces : List.Forall₂ Workspace.SameContents s.workspaces t.workspaces

variable {s t : Session}

theorem SameContents.workspace? (h : s.SameContents t) (id : WorkspaceId) :
    (s.workspace? id = none ∧ t.workspace? id = none) ∨
      ∃ w v, s.workspace? id = some w ∧ t.workspace? id = some v ∧ w.SameContents v :=
  find?_of_forall₂ Workspace.SameContents.id h.workspaces id

theorem SameContents.isSome_workspace? (h : s.SameContents t) (id : WorkspaceId) :
    (s.workspace? id).isSome = (t.workspace? id).isSome := by
  rcases h.workspace? id with ⟨hs, ht⟩ | ⟨w, v, hs, ht, -⟩
  · rw [hs, ht]
  · rw [hs, ht]
    rfl

theorem SameContents.sources (h : s.SameContents t) : s.sources.SameContents t.sources := by
  rw [Session.sources, Session.sources, h.classPath, h.active]
  cases t.active with
  | none => exact .closed t.classPath
  | some id =>
    rw [Option.bind_some, Option.bind_some]
    rcases h.workspace? id with ⟨hs, ht⟩ | ⟨w, v, hs, ht, hw⟩
    · rw [hs, ht]
      exact .closed t.classPath
    · rw [hs, ht]
      exact .opened t.classPath hw

/-! ## One step -/

theorem SameContents.tell (h : s.SameContents t) (result : Result) :
    s.tell result = t.tell result := by
  rw [Session.tell, Session.tell, h.builds]

theorem SameContents.ask (h : s.SameContents t) (j : Nat) {answer answer' : NameIndex → Answer}
    (hanswer : ∀ index, answer index = answer' index) :
    (s.ask j answer).1 = (t.ask j answer').1 ∧
      (s.ask j answer).2.SameContents (t.ask j answer').2 := by
  rw [Session.ask, Session.ask, h.completers, h.builds, funext hanswer]
  cases t.completers[j]? with
  | none => exact ⟨h.tell _, h⟩
  | some index => exact ⟨rfl, h.classPath, h.active, rfl, rfl, h.workspaces⟩

theorem SameContents.putClass (h : s.SameContents t) (id : WorkspaceId) (c : ClassFile) :
    (s.putClass id c).SameContents (t.putClass id c) := by
  refine ⟨h.classPath, h.active, h.completers, h.builds, ?_⟩
  rw [Session.putClass, Session.putClass, List.forall₂_map_left_iff, List.forall₂_map_right_iff]
  refine h.workspaces.imp fun w v hw => ?_
  rw [← hw.id]
  split
  · exact hw.putClass c
  · exact hw

/-- A step is told about in the same way in both sessions, and leaves them as much alike. -/
theorem SameContents.step (h : s.SameContents t) (step : Step) :
    (s.step step).1 = (t.step step).1 ∧ (s.step step).2.SameContents (t.step step).2 := by
  cases step with
  | complete j r => exact h.ask j fun index => h.sources.complete index r
  | names j =>
    refine h.ask j fun index => ?_
    rw [h.sources.names, h.sources.refresh, h.sources.builds]
  | servesFor j identity =>
    simp only [Session.step, h.completers, h.isSome_workspace?]
    split <;> exact ⟨h.tell _, h⟩
  | invalidate j =>
    simp only [Session.step, h.completers]
    split
    · exact ⟨h.tell _, h⟩
    · exact ⟨h.tell _, h.classPath, h.active, rfl, h.builds, h.workspaces⟩
  | resolve j owner kind =>
    simp only [Session.step, h.completers, h.builds, h.sources.signatures?, h.sources.lookups]
    split
    · exact ⟨h.tell _, h⟩
    · exact ⟨rfl, h⟩
  | activate id =>
    rcases h.workspace? id with ⟨hs, ht⟩ | ⟨w, v, hs, ht, -⟩
    · simp only [Session.step, hs, ht]
      exact ⟨h.tell _, h⟩
    · simp only [Session.step, hs, ht, h.active]
      exact ⟨h.tell _, h.classPath, rfl, h.completers, h.builds, h.workspaces⟩
  | putClass id c =>
    have hput := h.putClass id c
    rcases hput.workspace? id with ⟨hs, ht⟩ | ⟨w, v, hs, ht, hw⟩
    · simp only [Session.step, hs, ht]
      exact ⟨h.tell _, h⟩
    · simp only [Session.step, hs, ht, hw.size]
      exact ⟨h.tell _, hput⟩
  | resident id =>
    rcases h.workspace? id with ⟨hs, ht⟩ | ⟨w, v, hs, ht, hw⟩
    · simp only [Session.step, hs, ht]
      exact ⟨h.tell _, h⟩
    · simp only [Session.step, hs, ht, Names.sorted_congr hw.residentNames]
      exact ⟨h.tell _, h⟩
  | classOf id name =>
    rcases h.workspace? id with ⟨hs, ht⟩ | ⟨w, v, hs, ht, hw⟩
    · simp only [Session.step, hs, ht]
      exact ⟨h.tell _, h⟩
    · simp only [Session.step, hs, ht, hw.found]
      exact ⟨h.tell _, h⟩
  | close =>
    simp only [Session.step, h.active]
    exact ⟨h.tell _, h.classPath, rfl, h.completers, h.builds, h.workspaces⟩
  | current =>
    simp only [Session.step, h.active]
    exact ⟨h.tell _, h⟩
  | addName | addClass =>
    simp only [Session.step, h.classPath]
    exact ⟨h.tell _, rfl, h.active, h.completers, h.builds, h.workspaces⟩
  | loadable =>
    simp only [Session.step, h.classPath]
    exact ⟨h.tell _, h⟩
  | load =>
    simp only [Session.step, h.classPath, h.builds, true_and]
    exact h
  | addCompleter warm =>
    simp only [Session.step, Session.tell, h.completers, h.builds, h.sources.refresh,
      h.sources.builds, true_and]
    exact ⟨h.classPath, h.active, rfl, rfl, h.workspaces⟩

/-! ## A run -/

theorem SameContents.reports_run (h : s.SameContents t) (steps : List Step) :
    (s.run steps).1 = (t.run steps).1 := by
  induction steps generalizing s t with
  | nil => rfl
  | cons step rest ih =>
    obtain ⟨hreport, hnext⟩ := h.step step
    rw [run, run, hreport, ih hnext]

/-- The order in which two classes of different names are put into a workspace in the course of a
session does not show in any report after that. -/
theorem reports_after_putClass_swap (s : Session) (id : WorkspaceId) {c d : ClassFile}
    (h : c.name ≠ d.name) (steps : List Step) :
    ((s.after [.putClass id c, .putClass id d]).run steps).1 =
      ((s.after [.putClass id d, .putClass id c]).run steps).1 := by
  simp only [after_cons, after_nil, step_putClass]
  apply SameContents.reports_run
  refine ⟨rfl, rfl, rfl, rfl, ?_⟩
  simp only [putClass, List.map_map, List.forall₂_map_left_iff, List.forall₂_map_right_iff]
  refine List.forall₂_same.2 fun w _ => ?_
  by_cases hid : w.id = id
  · simpa [hid] using w.sameContents_putClass_swap h
  · simpa [hid] using Workspace.SameContents.refl w

end Session

namespace Workspace

/-- After classes were put into a workspace, those of a list first, it holds the last one of each
name. The names that it lists are those of the classes that were put, each of them once; as many
classes are counted, and there are none only if nothing was put. What is found under a name is the
class of that name that was put last, as it was given. Two classes of different names that were put
one after the other can change places, also across the end of the list: the names may then be listed
in another order, but neither what is found nor what is completed from it is any different, be it
with a list of names that is built anew or in the course of a session. So can two classes that are
put in the course of a session. -/
theorem contents_of_puts (id : WorkspaceId) (classes puts : List ClassFile) :
    let w := puts.foldl putClass (ofList id classes)
    let received := classes ++ puts
    (w.residentNames.Nodup ∧
        ∀ name, name ∈ w.residentNames ↔ ∃ c ∈ received, c.name = name) ∧
      (w.size = w.residentNames.length ∧ (w.isEmpty = true ↔ received = [])) ∧
      (∀ name, (w.class? name).isSome ↔ ∃ c ∈ received, c.name = name) ∧
      (∀ name c, w.class? name = some c ↔
        ∃ before after, received = before ++ c :: after ∧ c.name = name ∧
          ∀ later ∈ after, later.name ≠ name) ∧
      (∀ name c, w.class? name = some c → c.name = name) ∧
      (∀ before c d after classes' puts', received = before ++ c :: d :: after →
        classes' ++ puts' = before ++ d :: c :: after → c.name ≠ d.name →
        let v := puts'.foldl putClass (ofList id classes')
        (v.id = w.id ∧ v.residentNames.Perm w.residentNames ∧ v.size = w.size ∧
            v.isEmpty = w.isEmpty ∧ ∀ name, v.class? name = w.class? name) ∧
          (∀ path : ClassPath,
            (Sources.mk path (some v)).classNames = (Sources.mk path (some w)).classNames ∧
              ∀ owner kind,
                (Sources.mk path (some v)).signatures? owner kind =
                    (Sources.mk path (some w)).signatures? owner kind ∧
                  (Sources.mk path (some v)).lookups owner =
                    (Sources.mk path (some w)).lookups owner) ∧
          ∀ (s : Session) (left right : List Workspace) (steps : List Step),
            ({ s with workspaces := left ++ v :: right }.run steps).1 =
              ({ s with workspaces := left ++ w :: right }.run steps).1) ∧
      ∀ (s : Session) (c d : ClassFile) (steps : List Step), c.name ≠ d.name →
        ((s.after [.putClass id c, .putClass id d]).run steps).1 =
          ((s.after [.putClass id d, .putClass id c]).run steps).1 := by
  intro w received
  have hw : w = ofList id received := foldl_putClass_ofList id classes puts
  have hlast : ∀ name c, w.class? name = some c ↔
      ∃ before after, received = before ++ c :: after ∧ c.name = name ∧
        ∀ later ∈ after, later.name ≠ name := by
    intro name c
    rw [hw, class?_ofList, ClassFile.lastNamed?_eq_some_iff]
  have hnames : ∀ name, name ∈ w.residentNames ↔ ∃ c ∈ received, c.name = name := by
    intro name
    rw [hw, mem_residentNames_ofList]
  refine ⟨⟨w.nodup_residentNames, hnames⟩, ⟨w.size_eq_length_residentNames, ?_⟩, fun name => ?_,
    hlast, fun name c hc => ?_, ?_, fun s c d steps hne => ?_⟩
  · rw [hw, isEmpty_ofList_iff]
  · rw [isSome_class?_iff, hnames]
  · obtain ⟨-, -, -, hname, -⟩ := (hlast name c).1 hc
    exact hname
  · intro before c d after classes' puts' hreceived hswapped hne v
    have hsame : v.SameContents w := by
      have hv : v = ofList id (before ++ d :: c :: after) := by
        rw [← hswapped, ← foldl_putClass_ofList]
      rw [hv, hw, hreceived]
      exact sameContents_ofList_swap id before after hne.symm
    refine ⟨⟨hsame.id, hsame.residentNames, hsame.size, hsame.isEmpty, hsame.found⟩,
      fun path => ?_, fun s left right steps => ?_⟩
    · have hsources : (Sources.mk path (some v)).SameContents ⟨path, some w⟩ := .opened path hsame
      exact ⟨hsources.classNames, fun owner kind =>
        ⟨hsources.signatures? owner kind, hsources.lookups owner⟩⟩
    · apply Session.SameContents.reports_run
      refine ⟨rfl, rfl, rfl, rfl, List.rel_append ?_ (.cons hsame ?_)⟩
      · exact List.forall₂_same.2 fun u _ => .refl u
      · exact List.forall₂_same.2 fun u _ => .refl u
  · exact s.reports_after_putClass_swap id hne steps

/-- A class is replaced by another of its name, and two others change places across the end of the
list, so that the names are listed in another order. -/
theorem contents_of_puts_out_of_order :
    let first : ClassFile := ⟨"a/B", [⟨"run", "()V"⟩], [⟨"x", "I"⟩]⟩
    let second : ClassFile := ⟨"a/B", [⟨"rest", "()I"⟩], []⟩
    let w := [⟨"e/F", [], []⟩, second].foldl putClass (ofList "w" [first, ⟨"c/D", [], []⟩])
    let v := [⟨"c/D", [], []⟩, second].foldl putClass (ofList "w" [first, ⟨"e/F", [], []⟩])
    let s : Session := { classPath := ClassPath.empty, workspaces := [], active := some "w" }
    (w.class? "a/B" = some second ∧ second.name = "a/B") ∧
      v.residentNames ≠ w.residentNames ∧ v.residentNames.Perm w.residentNames ∧
      ({ s with workspaces := [v] }.run [.names 0, .resident "w"]).1 =
        ({ s with workspaces := [w] }.run [.names 0, .resident "w"]).1 := by
  intro first second w v s
  obtain ⟨-, -, -, hlast, hname, hswap, -⟩ :=
    contents_of_puts "w" [first, ⟨"c/D", [], []⟩] [⟨"e/F", [], []⟩, second]
  have hfound : w.class? "a/B" = some second := by
    refine (hlast "a/B" second).2 ⟨[first, ⟨"c/D", [], []⟩, ⟨"e/F", [], []⟩], [], rfl, rfl, ?_⟩
    exact fun later hlater => absurd hlater List.not_mem_nil
  obtain ⟨⟨-, hperm, -⟩, -, hruns⟩ := hswap [first] ⟨"c/D", [], []⟩ ⟨"e/F", [], []⟩ [second]
    [first, ⟨"e/F", [], []⟩] [⟨"c/D", [], []⟩, second] rfl rfl (by decide)
  exact ⟨⟨hfound, hname "a/B" second hfound⟩, by decide, hperm, hruns s [] [] _⟩

end Workspace

end JvmCompletion
