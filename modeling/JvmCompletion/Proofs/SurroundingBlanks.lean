import JvmCompletion.Proofs.Narrowing

/-!
# Blanks around what is typed

What an editor sends may have blanks around it, which count for nothing: for class names and
descriptors at both ends of the typed text, for members at both ends of the owner and before the
typed text. Two steps that are the same but for such blanks have one report and lead to one session
(`step_congr_of_sameButBlanks`), and so do two runs of them. The blanks at the end of the typed text
are the only ones that are looked for, as part of a signature. `blanks_around_ignored` says both.
-/

namespace JvmCompletion

/-! ## Requests that differ in blanks -/

/-- The requests are the same but for blanks that do not count. -/
inductive Request.SameButBlanks : Request → Request → Prop where
  /-- Class names and descriptors have no use for an owner. -/
  | names {kind : Kind} {owner owner' : Option String} {typed typed' : String}
      (hkind : kind.fromNames = true) (htyped : Text.trim typed = Text.trim typed') :
      SameButBlanks ⟨kind, owner, typed⟩ ⟨kind, owner', typed'⟩
  | members {kind : MemberKind} {owner owner' : Option String} {typed typed' : String}
      (howner : Text.trim (owner.getD "") = Text.trim (owner'.getD ""))
      (htyped : Text.trimStart typed = Text.trimStart typed') :
      SameButBlanks ⟨kind.toKind, owner, typed⟩ ⟨kind.toKind, owner', typed'⟩

/-- The steps are the same but for blanks that do not count. -/
inductive Step.SameButBlanks : Step → Step → Prop where
  | same (step : Step) : SameButBlanks step step
  | complete (j : Nat) {r q : Request} (h : r.SameButBlanks q) :
      SameButBlanks (.complete j r) (.complete j q)
  | resolve (j : Nat) {owner owner' : String} (kind : MemberKind)
      (h : Text.trim owner = Text.trim owner') :
      SameButBlanks (.resolve j owner kind) (.resolve j owner' kind)

theorem OpenDescriptor.read?_congr {typed typed' : String}
    (h : Text.trim typed = Text.trim typed') : read? typed = read? typed' := by
  simp only [read?, h]

namespace Sources

theorem signatures?_congr_trim (s : Sources) {owner owner' : String} (kind : MemberKind)
    (h : Text.trim owner = Text.trim owner') :
    s.signatures? owner kind = s.signatures? owner' kind := by
  rw [signatures?_eq, signatures?_eq, h]

theorem lookups_congr_trim (s : Sources) {owner owner' : String}
    (h : Text.trim owner = Text.trim owner') : s.lookups owner = s.lookups owner' := by
  rw [lookups_eq, lookups_eq, h]

end Sources

theorem Text.isBlankText_congr {s t : String} (h : trim s = trim t) :
    isBlankText s = isBlankText t := by
  rw [Bool.eq_iff_iff, ← trim_eq_empty_iff, ← trim_eq_empty_iff, h]

namespace Completer

theorem selection?_congr {kind : Kind} (owner owner' : Option String) {typed typed' : String}
    (hkind : kind.fromNames = true) (h : Text.trim typed = Text.trim typed') :
    (Request.mk kind owner typed).selection? = (Request.mk kind owner' typed').selection? := by
  cases kind with
  | internalName =>
    simp only [Request.selection?, longerNames?, h, Text.isBlankText_congr h]
  | descriptor =>
    simp only [Request.selection?, closedDescriptors?, OpenDescriptor.read?_congr h]
  | method => cases hkind
  | field => cases hkind

theorem completeMembers_congr (s : Sources) (index : NameIndex) (kind : MemberKind)
    {owner owner' typed typed' : String} (howner : Text.trim owner = Text.trim owner')
    (htyped : Text.trimStart typed = Text.trimStart typed') :
    completeMembers s index kind owner typed = completeMembers s index kind owner' typed' := by
  have htrim := Text.trim_congr_of_trimStart htyped
  rw [completeMembers, completeMembers, Text.isBlankText_congr howner,
    Text.isBlankText_congr htrim, s.signatures?_congr_trim kind howner,
    s.lookups_congr_trim howner, htyped]

/-- Requests that are the same but for blanks have one answer, with all that it leaves behind. -/
theorem complete_congr_of_sameButBlanks (s : Sources) (index : NameIndex) {r q : Request}
    (h : r.SameButBlanks q) : complete s index r = complete s index q := by
  cases h with
  | @names kind owner owner' typed typed' hkind htyped =>
    rw [complete_of_fromNames hkind, complete_of_fromNames hkind,
      selection?_congr owner owner' hkind htyped]
  | @members kind owner owner' typed typed' howner htyped =>
    cases kind with
    | method => exact completeMembers_congr s index .method howner htyped
    | field => exact completeMembers_congr s index .field howner htyped

end Completer

/-! ## Sessions -/

namespace Session

theorem step_congr_of_sameButBlanks (s : Session) {first second : Step}
    (h : first.SameButBlanks second) : s.step first = s.step second := by
  cases h with
  | same => rfl
  | complete j hr =>
    have hanswer : ∀ index, Completer.complete s.sources index _ = _ := fun index =>
      Completer.complete_congr_of_sameButBlanks s.sources index hr
    simp only [step, hanswer]
  | resolve j kind howner =>
    simp only [step, s.sources.signatures?_congr_trim kind howner,
      s.sources.lookups_congr_trim howner]

theorem run_congr_of_sameButBlanks (s : Session) {steps steps' : List Step}
    (h : List.Forall₂ Step.SameButBlanks steps steps') : s.run steps = s.run steps' := by
  induction h generalizing s with
  | nil => rfl
  | cons hstep _ ih => rw [run, run, step_congr_of_sameButBlanks s hstep, ih]

/-- In any state of a session, blanks put around what is typed for a class name or a descriptor,
around an owner, and before what is typed for a member change nothing: not the answer, not the
session that it leaves behind, not the number of lists built and not what the runtime is asked for.
So they change nothing in a run of steps either. After what is typed for a member they are part of
it, and the suggestions are those for the text without them that go on with them. -/
theorem blanks_around_ignored (s : Session) (j : Nat) {before after : String}
    (hbefore : Text.isBlankText before = true) (hafter : Text.isBlankText after = true) :
    (∀ owner typed, s.step (.complete j ⟨.internalName, owner, before ++ typed ++ after⟩) =
      s.step (.complete j ⟨.internalName, owner, typed⟩)) ∧
    (∀ owner typed, s.step (.complete j ⟨.descriptor, owner, before ++ typed ++ after⟩) =
      s.step (.complete j ⟨.descriptor, owner, typed⟩)) ∧
    (∀ (kind : MemberKind) owner, s.step (.resolve j (before ++ owner ++ after) kind) =
      s.step (.resolve j owner kind)) ∧
    (∀ (kind : MemberKind) owner typed,
      s.step (.complete j ⟨kind.toKind, some (before ++ owner ++ after), before ++ typed⟩) =
        s.step (.complete j ⟨kind.toKind, some owner, typed⟩)) ∧
    (∀ steps steps', List.Forall₂ Step.SameButBlanks steps steps' → s.run steps = s.run steps') ∧
    ∀ (kind : MemberKind) owner typed, j < s.completers.length → Text.trim typed ≠ "" →
      ∃ items, (s.step (.complete j ⟨kind.toKind, owner, typed⟩)).1.result = .items items ∧
        (s.step (.complete j ⟨kind.toKind, owner, typed ++ after⟩)).1.result =
          .items (items.filter fun c => Text.begins (Text.trimStart typed ++ after) c) := by
  have htrim : ∀ text, Text.trim (before ++ text ++ after) = Text.trim text :=
    Text.trim_surrounded hbefore hafter
  refine ⟨fun owner typed => ?_, fun owner typed => ?_, fun kind owner => ?_,
    fun kind owner typed => ?_, fun steps steps' => s.run_congr_of_sameButBlanks,
    fun kind owner typed hj htyped => ?_⟩
  · exact s.step_congr_of_sameButBlanks (.complete j (.names rfl (htrim typed)))
  · exact s.step_congr_of_sameButBlanks (.complete j (.names rfl (htrim typed)))
  · exact s.step_congr_of_sameButBlanks (.resolve j kind (htrim owner))
  · have hmembers : Request.SameButBlanks
        ⟨kind.toKind, some (before ++ owner ++ after), before ++ typed⟩
        ⟨kind.toKind, some owner, typed⟩ :=
      .members (htrim owner) (Text.trimStart_preceded hbefore typed)
    exact s.step_congr_of_sameButBlanks (.complete j hmembers)
  · refine ⟨_, result_complete hj _, ?_⟩
    rw [result_complete hj,
      Completer.items_members_append s.sources (s.index j) owner kind htyped after,
      Text.trimStart_append htyped]

/-- Of the blanks around the beginning of two methods only the one behind it counts. -/
theorem blanks_around_ignored_wide :
    let w := Workspace.ofList "w" [⟨"o", [⟨"r un", "()I"⟩, ⟨"run", "(I)V"⟩], []⟩]
    let s : Session :=
      { classPath := ⟨["a b/C", "a/B"], Table.empty⟩, workspaces := [w], active := "w" }
    let before := "\u3000\t"
    let after := " "
    let result : Request → Result := fun r => (s.step (.complete 0 r)).1.result
    (Text.isBlankText before = true ∧ Text.isBlankText after = true ∧ 0 < s.completers.length ∧
        Text.trim "r" ≠ "") ∧
      (s.step (.complete 0 ⟨.internalName, none, before ++ "a b" ++ after⟩) =
          s.step (.complete 0 ⟨.internalName, none, "a b"⟩) ∧
        result ⟨.internalName, none, before ++ "a b" ++ after⟩ = .items ["a b/C"]) ∧
      (s.step (.complete 0 ⟨.descriptor, none, before ++ "[La b" ++ after⟩) =
          s.step (.complete 0 ⟨.descriptor, none, "[La b"⟩) ∧
        result ⟨.descriptor, none, before ++ "[La b" ++ after⟩ = .items ["[La b/C;"]) ∧
      s.run [.names 0, .resolve 0 (before ++ "o" ++ after) .method] =
        s.run [.names 0, .resolve 0 "o" .method] ∧
      result ⟨.method, some (before ++ "o" ++ after), before ++ "r"⟩ =
        .items ["r un()I", "run(I)V"] ∧
      result ⟨.method, some "o", "r" ++ after⟩ = .items ["r un()I"] := by
  intro w s before after result
  have hypotheses : Text.isBlankText before = true ∧ Text.isBlankText after = true ∧
      0 < s.completers.length ∧ Text.trim "r" ≠ "" := by decide
  obtain ⟨hbefore, hafter, hj, htyped⟩ := hypotheses
  have hlist : (s.index 0).names s.sources = ["a b/C", "a/B", "o"] :=
    Sources.classNames_eq_of_perm (s := s.sources) (by decide) (by decide)
  have hname : result ⟨.internalName, none, "a b"⟩ = .items ["a b/C"] := by
    have hitems := result_complete hj ⟨.internalName, none, "a b"⟩
    rw [Completer.items_internalName, hlist] at hitems
    exact hitems.trans (by decide)
  have hdescriptor : result ⟨.descriptor, none, "[La b"⟩ = .items ["[La b/C;"] := by
    have hitems := result_complete hj ⟨.descriptor, none, "[La b"⟩
    rw [Completer.items_descriptor, hlist] at hitems
    exact hitems.trans (by decide)
  have hmethod : result ⟨.method, some "o", "r"⟩ = .items ["r un()I", "run(I)V"] := by
    have hknown : s.sources.signatures? "o" .method = some ["r un()I", "run(I)V"] := by decide
    have hitems := (step_members hj .method (some "o") "r").1
    rw [Option.getD_some, hknown, if_neg (by decide)] at hitems
    exact hitems.trans (congrArg _ (Names.sorted_eq_of_perm (by decide) (by decide)))
  obtain ⟨hnames, hdescriptors, -, hmembers, hruns, hbehind⟩ :=
    blanks_around_ignored s 0 hbefore hafter
  have hsteps : List.Forall₂ Step.SameButBlanks
      [.names 0, .resolve 0 (before ++ "o" ++ after) .method]
      [.names 0, .resolve 0 "o" .method] :=
    .cons (.same _) (.cons (.resolve 0 .method (Text.trim_surrounded hbefore hafter "o")) .nil)
  obtain ⟨members, hfirst, hlonger⟩ := hbehind .method (some "o") "r" hj htyped
  obtain rfl := Result.items.inj (hfirst.symm.trans hmethod)
  refine ⟨⟨hbefore, hafter, hj, htyped⟩, ⟨hnames none "a b", ?_⟩, ⟨hdescriptors none "[La b", ?_⟩,
    hruns _ _ hsteps, ?_, hlonger.trans (by decide)⟩
  · show (s.step (.complete 0 ⟨.internalName, none, before ++ "a b" ++ after⟩)).1.result = _
    rw [hnames none "a b"]
    exact hname
  · show (s.step (.complete 0 ⟨.descriptor, none, before ++ "[La b" ++ after⟩)).1.result = _
    rw [hdescriptors none "[La b"]
    exact hdescriptor
  · show (s.step (.complete 0
      ⟨MemberKind.method.toKind, some (before ++ "o" ++ after), before ++ "r"⟩)).1.result = _
    rw [hmembers .method "o" "r"]
    exact hmethod

end Session

end JvmCompletion
