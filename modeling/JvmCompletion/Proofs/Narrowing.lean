import JvmCompletion.Proofs.ClosedNames
import JvmCompletion.Proofs.Members

/-!
# Typing on

When a text that has been completed goes on, the suggestions for the longer text are those of the
suggestions for the shorter one that begin with it: nothing comes up that was not there before. For
each way to select candidates this is a law of its own, since what is looked for changes with the
text: blanks that were at its end and did not count may now stand in the middle, the name that was
typed in full was left out and no longer is what is typed, and the `;` that closes a descriptor is
not part of any name. `suggestions_narrow` draws them together for requests that follow one another.
-/

namespace JvmCompletion

/-! ## Selecting among what was selected -/

/-- Names that go on from a text are among those that go on from a beginning of it. -/
theorem Selection.apply_longer_of_begins {typed longer : String}
    (h : Text.begins typed longer = true) (names : List String) :
    (Selection.longer longer).apply names =
      ((Selection.longer typed).apply names).filter fun c =>
        Text.begins longer c && c != longer := by
  rw [apply, apply, List.filter_filter]
  refine List.filter_congr fun c _ => ?_
  rw [Bool.eq_iff_iff]
  simp only [Bool.and_eq_true, bne_iff_ne]
  constructor
  · rintro ⟨hbegins, hne⟩
    refine ⟨⟨hbegins, hne⟩, Text.begins_trans h hbegins, ?_⟩
    -- the beginning itself does not begin with the longer text, unless they are one
    rintro rfl
    exact hne (Text.eq_of_begins h hbegins)
  · exact And.left

/-- It makes no difference whether names are left out before or after they are sorted. -/
theorem Names.filter_sorted (keep : String → Bool) (names : List String) :
    (sorted names).filter keep = sorted (names.filter keep) := by
  have hperm : (names.filter keep).Perm ((sorted names).filter keep) :=
    ((sorted_perm names).filter keep).symm
  exact (sorted_eq_of_perm hperm ((pairwise_sorted names).filter keep)).symm

theorem Selection.apply_signature_of_begins {typed longer : String}
    (h : Text.begins typed longer = true) (candidates : List String) :
    (Selection.signature longer).apply candidates =
      ((Selection.signature typed).apply candidates).filter (Text.begins longer) := by
  rw [apply, apply, Names.filter_sorted, List.filter_filter]
  refine congrArg Names.sorted (List.filter_congr fun c _ => ?_)
  rw [Bool.eq_iff_iff, Bool.and_eq_true]
  exact ⟨fun hbegins => ⟨hbegins, Text.begins_trans h hbegins⟩, And.left⟩

/-- A closed descriptor begins with an open one exactly if its name does so, as a name does not go
on to the `;` that closes it. -/
theorem OpenDescriptor.begins_close_iff {d : OpenDescriptor} {name : String} (hne : name ≠ "")
    (hopen : ';' ∉ d.name.toList.tail) :
    Text.begins (d.markers ++ d.name) (d.close name) = true ↔ Text.begins d.name name = true := by
  rw [Text.begins, Text.begins, List.isPrefixOf_iff_prefix, List.isPrefixOf_iff_prefix,
    String.toList_append, toList_close, List.prefix_append_right_inj, List.prefix_concat_iff]
  refine or_iff_right ?_
  intro hclosed
  obtain ⟨first, rest, hname⟩ := List.exists_cons_of_ne_nil (mt String.toList_eq_nil_iff.1 hne)
  rw [hclosed, hname] at hopen
  exact hopen (by simp)

theorem Selection.apply_closing_of_begins {d longer : OpenDescriptor}
    (hmarkers : longer.markers = d.markers) (h : Text.begins d.name longer.name = true)
    (hne : d.name ≠ "") (hopen : ';' ∉ longer.name.toList.tail) (names : List String) :
    (Selection.closing longer).apply names =
      ((Selection.closing d).apply names).filter
        (Text.begins (longer.markers ++ longer.name)) := by
  have hclose : longer.close = d.close := by
    funext name
    rw [OpenDescriptor.close, OpenDescriptor.close, hmarkers]
  rw [apply, apply, List.filter_map, List.filter_filter, hclose]
  refine congrArg (List.map d.close) (List.filter_congr fun c _ => ?_)
  rw [Bool.eq_iff_iff, Bool.and_eq_true, Function.comp_apply, ← hclose]
  have hclosed : Text.begins d.name c = true →
      (Text.begins (longer.markers ++ longer.name) (longer.close c) = true ↔
        Text.begins longer.name c = true) := by
    intro hc
    refine OpenDescriptor.begins_close_iff ?_ hopen
    rintro rfl
    obtain ⟨rest, hrest⟩ := Text.begins_iff.1 hc
    exact hne (String.toList_eq_nil_iff.1 (List.append_eq_nil_iff.1 hrest).1)
  constructor
  · intro hbegins
    have hc := Text.begins_trans h hbegins
    exact ⟨(hclosed hc).2 hbegins, hc⟩
  · rintro ⟨hbegins, hc⟩
    exact (hclosed hc).1 hbegins

/-! ## Reading what goes on -/

theorem OpenDescriptor.name_ne_of_read? {typed : String} {d : OpenDescriptor}
    (h : read? typed = some d) : d.name ≠ "" := by
  obtain ⟨-, -, -, first, rest, hname, -⟩ := read?_eq_some_iff.1 h
  intro he
  rw [he] at hname
  cases hname

theorem OpenDescriptor.trim_ne_of_read? {typed : String} {d : OpenDescriptor}
    (h : read? typed = some d) : Text.trim typed ≠ "" := by
  obtain ⟨htext, -⟩ := read?_eq_some_iff.1 h
  intro he
  rw [he, ← String.toList_inj, String.toList_append] at htext
  exact name_ne_of_read? h (String.toList_eq_nil_iff.1 (List.append_eq_nil_iff.1 htext).2)

/-- While a descriptor goes on being open, its markers stay and its name goes on. -/
theorem OpenDescriptor.begins_of_read?_append {typed more : String} {d longer : OpenDescriptor}
    (h : read? typed = some d) (h' : read? (typed ++ more) = some longer) :
    longer.markers = d.markers ∧ Text.begins d.name longer.name = true := by
  obtain ⟨htext, hmarkers, -, first, rest, hname, hfirst, -⟩ := read?_eq_some_iff.1 h
  obtain ⟨rest', hrest'⟩ := Text.begins_iff.1 (Text.begins_trim_append (trim_ne_of_read? h) more)
  rw [← htext, String.toList_append, hname, List.append_assoc, List.cons_append] at hrest'
  have hkept : longer.markers = d.markers := by
    rw [takeWhile_of_read? h', ← hrest', takeWhile_markers_append hmarkers hfirst,
      String.ofList_toList]
  refine ⟨hkept, Text.begins_iff.2 ⟨rest', ?_⟩⟩
  rw [← (read?_eq_some_iff.1 h').1, String.toList_append, hkept] at hrest'
  rw [hname, List.cons_append]
  exact List.append_cancel_left hrest'

namespace Completer

variable (s : Sources) (index : NameIndex) (owner : Option String) {typed : String}

theorem items_internalName_append (h : Text.trim typed ≠ "") (more : String) :
    (complete s index ⟨.internalName, owner, typed ++ more⟩).items =
      (complete s index ⟨.internalName, owner, typed⟩).items.filter fun c =>
        Text.begins (Text.trim (typed ++ more)) c && c != Text.trim (typed ++ more) := by
  rw [items_internalName, items_internalName, if_neg h, if_neg (Text.trim_append_ne h more)]
  exact Selection.apply_longer_of_begins (Text.begins_trim_append h more) _

theorem items_descriptor_append {d : OpenDescriptor} (h : OpenDescriptor.read? typed = some d)
    (more : String) :
    (complete s index ⟨.descriptor, owner, typed ++ more⟩).items =
      if (OpenDescriptor.read? (typed ++ more)).isSome then
        (complete s index ⟨.descriptor, owner, typed⟩).items.filter
          (Text.begins (Text.trim (typed ++ more)))
      else [] := by
  rw [items_descriptor, items_descriptor, h]
  cases h' : OpenDescriptor.read? (typed ++ more) with
  | none => rfl
  | some longer =>
    obtain ⟨hmarkers, hbegins⟩ := OpenDescriptor.begins_of_read?_append h h'
    obtain ⟨htext, -, -, first, rest, hname, -, hopen⟩ := OpenDescriptor.read?_eq_some_iff.1 h'
    rw [Option.isSome_some, if_pos rfl, ← htext]
    refine Selection.apply_closing_of_begins hmarkers hbegins
      (OpenDescriptor.name_ne_of_read? h) ?_ _
    rwa [hname, List.tail_cons]

theorem items_members_append (kind : MemberKind) (h : Text.trim typed ≠ "") (more : String) :
    (complete s index ⟨kind.toKind, owner, typed ++ more⟩).items =
      (complete s index ⟨kind.toKind, owner, typed⟩).items.filter
        (Text.begins (Text.trimStart (typed ++ more))) := by
  rw [(complete_members s index kind owner _).1, (complete_members s index kind owner _).1,
    if_neg h, if_neg (Text.trim_append_ne h more)]
  cases s.signatures? (owner.getD "") kind with
  | none => rfl
  | some list =>
    rw [Option.map_some, Option.map_some, Option.getD_some, Option.getD_some]
    refine Selection.apply_signature_of_begins ?_ list
    rw [Text.trimStart_append h]
    exact Text.begins_iff_append.2 ⟨more, rfl⟩

end Completer

/-! ## Requests one after another -/

namespace Session

theorem result_complete {s : Session} {j : Nat} (hj : j < s.completers.length) (r : Request) :
    (s.step (.complete j r)).1.result =
      .items (Completer.complete s.sources (s.index j) r).items := by
  rw [step, ask_of_lt hj]

/-- A request that follows another one is answered as it would be in its place. -/
theorem result_complete_after {s : Session} {j : Nat} (hj : j < s.completers.length)
    (r q : Request) :
    ((s.step (.complete j r)).2.step (.complete j q)).1.result =
      (s.step (.complete j q)).1.result := by
  have hj' : j < (s.step (.complete j r)).2.completers.length := by
    rwa [step, length_ask]
  have hnames := names_step_complete s j j r
  have hsources : (s.step (.complete j r)).2.sources = s.sources := sources_ask s j _
  rw [hsources] at hnames
  rw [result_complete hj', result_complete hj, hsources]
  exact congrArg Result.items (Completer.items_complete_congr hnames q)

/-- In any state of a session, whatever list of names a completer keeps, a text that is completed
and then goes on has for its suggestions those of the first ones that begin with the longer text:
for class names without the blanks at its edges and without the text itself, for descriptors without
the blanks at its edges and only while the descriptor is open, for members without the blanks before
it. -/
theorem suggestions_narrow (s : Session) {j : Nat} (hj : j < s.completers.length)
    (owner : Option String) (typed more : String) :
    let ask : Kind → String → Step := fun kind text => .complete j ⟨kind, owner, text⟩
    let next : Kind → Result := fun kind =>
      ((s.step (ask kind typed)).2.step (ask kind (typed ++ more))).1.result
    (Text.trim typed ≠ "" →
      ∃ items, (s.step (ask .internalName typed)).1.result = .items items ∧
        next .internalName = .items (items.filter fun c =>
          Text.begins (Text.trim (typed ++ more)) c && c != Text.trim (typed ++ more))) ∧
    ((OpenDescriptor.read? typed).isSome →
      ∃ items, (s.step (ask .descriptor typed)).1.result = .items items ∧
        next .descriptor = .items
          (if (OpenDescriptor.read? (typed ++ more)).isSome then
            items.filter fun c => Text.begins (Text.trim (typed ++ more)) c
          else [])) ∧
    (Text.trim typed ≠ "" → ∀ kind : MemberKind,
      ∃ items, (s.step (ask kind.toKind typed)).1.result = .items items ∧
        next kind.toKind = .items
          (items.filter fun c => Text.begins (Text.trimStart (typed ++ more)) c)) := by
  intro ask next
  have hnext : ∀ kind, next kind = .items
      (Completer.complete s.sources (s.index j) ⟨kind, owner, typed ++ more⟩).items := by
    intro kind
    exact (result_complete_after hj _ _).trans (result_complete hj _)
  refine ⟨fun htyped => ?_, fun hopen => ?_, fun htyped kind => ?_⟩
  · refine ⟨_, result_complete hj _, ?_⟩
    rw [hnext, Completer.items_internalName_append s.sources (s.index j) owner htyped more]
  · obtain ⟨d, hread⟩ := Option.isSome_iff_exists.1 hopen
    refine ⟨_, result_complete hj _, ?_⟩
    rw [hnext, Completer.items_descriptor_append s.sources (s.index j) owner hread more]
  · refine ⟨_, result_complete hj _, ?_⟩
    rw [hnext, Completer.items_members_append s.sources (s.index j) owner kind htyped more]

/-- A blank that ends what is typed first stands in the middle of what is typed next. -/
theorem suggestions_narrow_past_blank :
    let w := Workspace.ofList "w" [⟨"o", [⟨"run", "(I)V"⟩, ⟨"r un", "()I"⟩], []⟩]
    let s : Session :=
      { classPath := ⟨["a b/C", "a/B", "a b/D"], Table.empty⟩, workspaces := [w], active := "w" }
    let next : Request → String → Result := fun r more =>
      ((s.step (.complete 0 r)).2.step (.complete 0 { r with typed := r.typed ++ more })).1.result
    (0 < s.completers.length ∧ Text.trim "a " ≠ "" ∧ (OpenDescriptor.read? "[La ").isSome ∧
        Text.trim " r " ≠ "") ∧
      next ⟨.internalName, some "o", "a "⟩ "b/" = .items ["a b/C", "a b/D"] ∧
      next ⟨.descriptor, some "o", "[La "⟩ "b/C" = .items ["[La b/C;"] ∧
      next ⟨.method, some "o", " r "⟩ "u" = .items ["r un()I"] := by
  intro w s next
  have hypotheses : 0 < s.completers.length ∧ Text.trim "a " ≠ "" ∧
      (OpenDescriptor.read? "[La ").isSome ∧ Text.trim " r " ≠ "" := by decide
  obtain ⟨hj, hname, hopen, hmember⟩ := hypotheses
  have hlist : (s.index 0).names s.sources = ["a b/C", "a b/D", "a/B", "o"] :=
    Sources.classNames_eq_of_perm (s := s.sources) (by decide) (by decide)
  have hnames : (s.step (.complete 0 ⟨.internalName, some "o", "a "⟩)).1.result =
      .items ["a b/C", "a b/D", "a/B"] := by
    rw [result_complete hj, Completer.items_internalName, hlist]
    decide
  have hdescriptors : (s.step (.complete 0 ⟨.descriptor, some "o", "[La "⟩)).1.result =
      .items ["[La b/C;", "[La b/D;", "[La/B;"] := by
    rw [result_complete hj, Completer.items_descriptor, hlist]
    decide
  have hmembers : (s.step (.complete 0 ⟨.method, some "o", " r "⟩)).1.result =
      .items ["r un()I"] := by
    have hknown : s.sources.signatures? "o" .method = some ["run(I)V", "r un()I"] := by decide
    have hitems := (step_members hj .method (some "o") " r ").1
    rw [Option.getD_some, hknown, if_neg (by decide)] at hitems
    exact hitems.trans (congrArg _ (Names.sorted_eq_of_perm (by decide) (by decide)))
  obtain ⟨names, hfirst, hnext⟩ := (suggestions_narrow s hj (some "o") "a " "b/").1 hname
  obtain ⟨closed, hfirst', hnext'⟩ := (suggestions_narrow s hj (some "o") "[La " "b/C").2.1 hopen
  obtain ⟨members, hfirst'', hnext''⟩ :=
    (suggestions_narrow s hj (some "o") " r " "u").2.2 hmember .method
  obtain rfl := Result.items.inj (hfirst.symm.trans hnames)
  obtain rfl := Result.items.inj (hfirst'.symm.trans hdescriptors)
  obtain rfl := Result.items.inj (hfirst''.symm.trans hmembers)
  exact ⟨⟨hj, hname, hopen, hmember⟩, hnext.trans (by decide), hnext'.trans (by decide),
    hnext''.trans (by decide)⟩

end Session

end JvmCompletion
