import JvmCompletion.Proofs.Narrowing

/-!
# Accepting a suggestion

A suggestion that is accepted becomes the text of the next request, which trims and reads it again
like anything that was typed. It comes through this unharmed, since it begins with the typed text
and with no blank: a descriptor is closed, as the `;` at its end is found behind whatever name it
has; a signature comes back in front of those that go on from it; and a class name gives way to the
suggestions that go on from it. `accepted_suggestion_settled` says so of every request.
-/

namespace JvmCompletion

/-! ## Reading a suggestion -/

/-- What begins like a trimmed text has no blanks before it. -/
theorem Text.trimStart_of_begins_trim {typed item : String} (h : trim typed ≠ "")
    (hbegins : begins (trim typed) item = true) : trimStart item = item :=
  trimStart_eq_self_of_begins h (trimStart_trim typed) hbegins

theorem Text.trim_ne_of_begins_trim {typed item : String} (h : trim typed ≠ "")
    (hbegins : begins (trim typed) item = true) : trim item ≠ "" := by
  obtain ⟨more, rfl⟩ := begins_iff_append.1 hbegins
  exact trim_append_ne (by rwa [trim_trim]) more

/-- What begins like a trimmed text and does not end with a blank has none at its edges. -/
theorem Text.trim_of_begins_trim {typed item : String} (h : trim typed ≠ "")
    (hbegins : begins (trim typed) item = true)
    (hend : ∀ c ∈ item.toList.getLast?, isBlank c = false) : trim item = item := by
  rw [trim_eq_self_iff, ← toList_trimStart, trimStart_of_begins_trim h hbegins]
  exact ⟨rfl, dropBlanksRight_eq_self_iff.2 hend⟩

/-- A descriptor that was closed over a name going on from the typed one is not open. -/
theorem OpenDescriptor.read?_close {typed name : String} {d : OpenDescriptor}
    (h : read? typed = some d) (hname : Text.begins d.name name = true) :
    read? (d.close name) = none := by
  obtain ⟨htext, hmarkers, -, first, rest, hfirst, hnot, -⟩ := read?_eq_some_iff.1 h
  obtain ⟨more, hmore⟩ := Text.begins_iff.1 hname
  rw [hfirst, List.cons_append] at hmore
  have hclose : (d.close name).toList = d.markers.toList ++ first :: (rest ++ more ++ [';']) := by
    rw [toList_close, ← hmore, List.cons_append]
  have htrim : Text.trim (d.close name) = d.close name := by
    refine Text.trim_of_begins_trim (trim_ne_of_read? h) ?_ ?_
    · refine Text.begins_iff.2 ⟨more ++ [';'], ?_⟩
      rw [← htext, hclose, String.toList_append, hfirst]
      simp
    · intro c hc
      rw [toList_close, ← List.append_assoc, List.getLast?_concat, Option.mem_some] at hc
      subst hc
      decide
  cases hread : read? (d.close name) with
  | none => rfl
  | some closed =>
    -- the markers end where they did, so the `;` is in what is read as the name
    obtain ⟨htext', -, -, first', rest', hfirst', -, hopen⟩ := read?_eq_some_iff.1 hread
    have hrun : closed.markers = d.markers := by
      rw [takeWhile_of_read? hread, htrim, hclose, takeWhile_markers_append hmarkers hnot,
        String.ofList_toList]
    rw [htrim, ← String.toList_inj, String.toList_append, hrun, hclose, hfirst'] at htext'
    obtain ⟨-, hrest⟩ := List.cons.inj (List.append_cancel_left htext')
    exact absurd (hrest ▸ by simp) hopen

/-! ## Selecting a suggestion again -/

/-- A candidate that is typed in full comes first of the signatures that begin with it. -/
theorem Selection.head?_apply_signature {item : String} {candidates : List String}
    (h : item ∈ candidates) :
    ((Selection.signature item).apply candidates).head? = some item := by
  have hmem : item ∈ (Selection.signature item).apply candidates :=
    Names.mem_sorted.2 (List.mem_filter.2 ⟨h, Text.begins_self item⟩)
  have hsorted : ((Selection.signature item).apply candidates).Pairwise (· ≤ ·) :=
    Names.pairwise_sorted _
  cases hlist : (Selection.signature item).apply candidates with
  | nil =>
    rw [hlist] at hmem
    cases hmem
  | cons c rest =>
    have hc : c ∈ (Selection.signature item).apply candidates := by
      rw [hlist]
      exact List.mem_cons_self
    have hle : item ≤ c := Text.le_of_begins (List.mem_filter.1 (Names.mem_sorted.1 hc)).2
    rw [hlist] at hmem hsorted
    rw [List.head?_cons]
    rcases List.mem_cons.1 hmem with rfl | hrest
    · rfl
    · exact congrArg some (le_antisymm ((List.pairwise_cons.1 hsorted).1 item hrest) hle)

/-- What accepting `item` out of the suggestions `items` for a kind leads to, when completing it is
answered with `again`. -/
def Kind.Settled (item : String) (items again : List String) : Kind → Prop
  | .internalName => (∀ c ∈ item.toList.getLast?, Text.isBlank c = false) →
      item ∉ again ∧ again = items.filter fun c => Text.begins item c && c != item
  | .descriptor => again = []
  | .method | .field => again.head? = some item ∧ again.count item = items.count item

namespace Completer

variable {s : Sources} {index : NameIndex} {owner : Option String} {typed item : String}

theorem settled_internalName (h : item ∈ (complete s index ⟨.internalName, owner, typed⟩).items) :
    Kind.internalName.Settled item (complete s index ⟨.internalName, owner, typed⟩).items
      (complete s index ⟨.internalName, owner, item⟩).items := by
  intro hend
  rw [items_internalName] at h ⊢
  split at h
  · cases h
  · rename_i htyped
    obtain ⟨-, hrest, -⟩ := Selection.mem_apply_longer.1 h
    have hbegins := Text.begins_iff_append.2 hrest
    have htrim := Text.trim_of_begins_trim htyped hbegins hend
    have hne : item ≠ "" := htrim ▸ Text.trim_ne_of_begins_trim htyped hbegins
    rw [items_internalName, htrim, if_neg hne, if_neg htyped]
    refine ⟨fun hmem => ?_, Selection.apply_longer_of_begins hbegins _⟩
    exact (Selection.mem_apply_longer.1 hmem).2.2 rfl

theorem settled_descriptor (h : item ∈ (complete s index ⟨.descriptor, owner, typed⟩).items) :
    Kind.descriptor.Settled item (complete s index ⟨.descriptor, owner, typed⟩).items
      (complete s index ⟨.descriptor, owner, item⟩).items := by
  rw [items_descriptor] at h
  cases hread : OpenDescriptor.read? typed with
  | none =>
    rw [hread] at h
    cases h
  | some d =>
    rw [hread] at h
    obtain ⟨name, -, hbegins, rfl⟩ := Selection.mem_apply_closing.1 h
    rw [Kind.Settled, items_descriptor, OpenDescriptor.read?_close hread hbegins]

theorem settled_members (kind : MemberKind)
    (h : item ∈ (complete s index ⟨kind.toKind, owner, typed⟩).items) :
    kind.toKind.Settled item (complete s index ⟨kind.toKind, owner, typed⟩).items
      (complete s index ⟨kind.toKind, owner, item⟩).items := by
  have hsettled : ∀ items again : List String, kind.toKind.Settled item items again ↔
      again.head? = some item ∧ again.count item = items.count item := by
    intro items again
    cases kind <;> exact Iff.rfl
  rw [hsettled]
  rw [(complete_members s index kind owner typed).1] at h ⊢
  rw [(complete_members s index kind owner item).1]
  by_cases htyped : Text.trim typed = ""
  · rw [if_pos htyped] at h
    cases h
  · rw [if_neg htyped] at h ⊢
    cases hknown : s.signatures? (owner.getD "") kind with
    | none =>
      rw [hknown] at h
      cases h
    | some list =>
      rw [hknown, Option.map_some, Option.getD_some] at h
      obtain ⟨hmem, hbegins⟩ := List.mem_filter.1 (Names.mem_sorted.1 h)
      have htrimmed : Text.begins (Text.trim typed) item = true := by
        obtain ⟨ending, hending⟩ := Text.exists_trim_append typed
        exact Text.begins_trans (Text.begins_iff_append.2 ⟨ending, hending⟩) hbegins
      rw [if_neg (Text.trim_ne_of_begins_trim htyped htrimmed),
        Text.trimStart_of_begins_trim htyped htrimmed, Option.map_some, Option.getD_some,
        Option.map_some, Option.getD_some]
      refine ⟨Selection.head?_apply_signature hmem, ?_⟩
      rw [Selection.apply_signature_of_begins hbegins, List.count_filter (Text.begins_self item)]

/-- A suggestion is settled by completing it, whatever names the index keeps. -/
theorem settled (s : Sources) (index : NameIndex) (r : Request) {item : String}
    (h : item ∈ (complete s index r).items) :
    r.kind.Settled item (complete s index r).items
      (complete s index { r with typed := item }).items := by
  obtain ⟨kind, owner, typed⟩ := r
  cases kind with
  | internalName => exact settled_internalName h
  | descriptor => exact settled_descriptor h
  | method => exact settled_members .method h
  | field => exact settled_members .field h

end Completer

/-! ## Requests for a suggestion -/

namespace Session

/-- In any state of a session and for every request, each suggestion can be completed in its turn,
at once or after the request that it was an answer to: a closed descriptor has no suggestions; a
signature is the first suggestion for itself and comes up as often as before; a class name that does
not end with a blank is not suggested for itself, and what is are the suggestions of before that go
on from it. -/
theorem accepted_suggestion_settled (s : Session) {j : Nat} (hj : j < s.completers.length)
    (r : Request) :
    ∃ items, (s.step (.complete j r)).1.result = .items items ∧
      ∀ item ∈ items, ∃ again,
        (s.step (.complete j { r with typed := item })).1.result = .items again ∧
        ((s.step (.complete j r)).2.step (.complete j { r with typed := item })).1.result =
          .items again ∧
        r.kind.Settled item items again := by
  refine ⟨_, result_complete hj r, fun item hitem => ?_⟩
  have hagain := result_complete hj { r with typed := item }
  exact ⟨_, hagain, (result_complete_after hj r _).trans hagain,
    Completer.settled s.sources (s.index j) r hitem⟩

/-- A name may have blanks and even a `;` in it, and a class may declare a method twice. -/
theorem accepted_suggestion_settled_of_odd_names :
    let w := Workspace.ofList "w" [⟨"o", [⟨"run", "()V"⟩, ⟨"rest", "()I"⟩, ⟨"run", "()V"⟩], []⟩]
    let s : Session :=
      { classPath := ⟨["a/B;L c", "a/B", "a/B c"], Table.empty⟩, workspaces := [w], active := "w" }
    let result : Kind → String → Result := fun kind typed =>
      (s.step (.complete 0 ⟨kind, some "o", typed⟩)).1.result
    0 < s.completers.length ∧
      (result .internalName " a" = .items ["a/B", "a/B c", "a/B;L c"] ∧
        result .internalName "a/B" = .items ["a/B c", "a/B;L c"]) ∧
      (result .descriptor "[La" = .items ["[La/B;", "[La/B c;", "[La/B;L c;"] ∧
        result .descriptor "[La/B;L c;" = .items []) ∧
      result .method " ru" = .items ["run()V", "run()V"] ∧
        ∃ again, result .method "run()V" = .items again ∧
          again.head? = some "run()V" ∧ again.count "run()V" = 2 := by
  intro w s result
  have hj : 0 < s.completers.length := by decide
  have hlist : (s.index 0).names s.sources = ["a/B", "a/B c", "a/B;L c", "o"] :=
    Sources.classNames_eq_of_perm (s := s.sources) (by decide) (by decide)
  have hname : result .internalName " a" = .items ["a/B", "a/B c", "a/B;L c"] := by
    have hitems := result_complete hj ⟨.internalName, some "o", " a"⟩
    rw [Completer.items_internalName, hlist] at hitems
    exact hitems.trans (by decide)
  have hdescriptor : result .descriptor "[La" =
      .items ["[La/B;", "[La/B c;", "[La/B;L c;"] := by
    have hitems := result_complete hj ⟨.descriptor, some "o", "[La"⟩
    rw [Completer.items_descriptor, hlist] at hitems
    exact hitems.trans (by decide)
  have hmethod : result .method " ru" = .items ["run()V", "run()V"] := by
    have hknown : s.sources.signatures? "o" .method = some ["run()V", "rest()I", "run()V"] := by
      decide
    have hitems := (step_members hj .method (some "o") " ru").1
    rw [Option.getD_some, hknown, if_neg (by decide)] at hitems
    exact hitems.trans (congrArg _ (Names.sorted_eq_of_perm (by decide) (by decide)))
  obtain ⟨names, hnames, hsettled⟩ :=
    accepted_suggestion_settled s hj ⟨.internalName, some "o", " a"⟩
  obtain rfl := Result.items.inj (hname.symm.trans hnames)
  obtain ⟨longer, hlonger, -, hends⟩ := hsettled "a/B" (by decide)
  obtain ⟨-, rfl⟩ := hends (Text.dropBlanksRight_eq_self_iff.1 (by decide))
  obtain ⟨closed, hclosed, hsettled'⟩ :=
    accepted_suggestion_settled s hj ⟨.descriptor, some "o", "[La"⟩
  obtain rfl := Result.items.inj (hdescriptor.symm.trans hclosed)
  obtain ⟨_, hnone, -, rfl⟩ := hsettled' "[La/B;L c;" (by decide)
  obtain ⟨members, hmembers, hsettled''⟩ :=
    accepted_suggestion_settled s hj ⟨.method, some "o", " ru"⟩
  obtain rfl := Result.items.inj (hmethod.symm.trans hmembers)
  obtain ⟨again, hagain, -, hfirst, hcount⟩ := hsettled'' "run()V" (by decide)
  exact ⟨hj, ⟨hname, hlonger.trans (by decide)⟩, ⟨hdescriptor, hnone⟩, hmethod, again, hagain,
    hfirst, hcount.trans (by decide)⟩

end Session

end JvmCompletion
