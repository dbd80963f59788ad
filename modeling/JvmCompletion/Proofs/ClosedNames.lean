import JvmCompletion.Proofs.LastBuild
import JvmCompletion.Proofs.OpenDescriptors
import JvmCompletion.Proofs.Selections
import JvmCompletion.Proofs.SourceHistory

/-!
# Descriptors close over the suggested class names

The same name, typed as a class name and behind the markers of a descriptor, is completed twice: the
first time the name itself is left out of the suggestions, the second time it is not. Apart from
that the two answers are one list. The name that is typed stands in front of all those that go on
after it, since the list of names is in order, whatever moment it was built at.
-/

namespace JvmCompletion

/-! ## Names in order -/

theorem Text.le_of_begins {opening name : String} (h : Text.begins opening name = true) :
    opening ≤ name := by
  obtain ⟨rest, hrest⟩ := Text.begins_iff.1 h
  have hprefix : opening.toList <+: name.toList := ⟨rest, hrest⟩
  rw [← not_lt, String.lt_iff_toList_lt]
  exact List.not_lt.2 hprefix.le

/-- In a list that ascends strictly, the names that begin with a text are the text itself, if it is
there, followed by those that go on after it. -/
theorem Selection.filter_begins {typed : String} {names : List String}
    (h : names.Pairwise (· < ·)) :
    names.filter (fun c => Text.begins typed c) =
      if typed ∈ names then typed :: (Selection.longer typed).apply names
      else (Selection.longer typed).apply names := by
  induction names with
  | nil => rfl
  | cons name rest ih =>
    obtain ⟨hname, hrest⟩ := List.pairwise_cons.1 h
    have ih' := ih hrest
    simp only [Selection.apply] at ih' ⊢
    by_cases hbegins : Text.begins typed name = true
    · -- no name behind this one can be the typed text, which is not above it
      have hnot : typed ∉ rest := by
        intro hmem
        exact absurd (hname typed hmem) (not_lt_of_ge (Text.le_of_begins hbegins))
      rw [if_neg hnot] at ih'
      by_cases hsame : name = typed
      · subst hsame
        simp [ih']
      · have hmem : typed ∉ name :: rest := by
          simp [hnot, Ne.symm hsame]
        rw [if_neg hmem, List.filter_cons_of_pos hbegins, ih', List.filter_cons_of_pos]
        simp [hbegins, hsame]
    · have hne : name ≠ typed := by
        intro he
        exact hbegins (he ▸ Text.begins_self name)
      have hmem : typed ∈ name :: rest ↔ typed ∈ rest := by
        simp [Ne.symm hne]
      rw [List.filter_cons_of_neg hbegins, ih', List.filter_cons_of_neg (by simp [hbegins])]
      simp only [hmem]

/-- Closing a descriptor over a list of names that ascends strictly goes over the typed name, if it
is there, and then over the names that are suggested for it. -/
theorem Selection.apply_closing_eq {d : OpenDescriptor} {names : List String}
    (h : names.Pairwise (· < ·)) :
    (Selection.closing d).apply names =
      (if d.name ∈ names then d.name :: (Selection.longer d.name).apply names
        else (Selection.longer d.name).apply names).map d.close := by
  rw [← Selection.filter_begins h, Selection.apply]

/-! ## Requests for a name with and without markers -/

/-- A name is read behind markers as it is, if no character of it can be taken for another part of
the descriptor. -/
theorem OpenDescriptor.read?_append {markers name : String}
    (hmarkers : ∀ c ∈ markers.toList, c = 'L' ∨ c = '[') (hL : 'L' ∈ markers.toList)
    (hne : name ≠ "") (htrim : Text.trim name = name)
    (hfirst : name.toList.head? ≠ some 'L' ∧ name.toList.head? ≠ some '[')
    (hclosed : ';' ∉ name.toList.tail) :
    read? (markers ++ name) = some ⟨markers, name⟩ := by
  obtain ⟨first, rest, hname⟩ : ∃ first rest, name.toList = first :: rest :=
    List.exists_cons_of_ne_nil fun he => hne (String.toList_eq_nil_iff.1 he)
  have hblank : ∀ c ∈ markers.toList, Text.isBlank c = false := by
    intro c hc
    rcases hmarkers c hc with rfl | rfl <;> decide
  have htext : Text.trim (markers ++ name) = markers ++ name := by
    rw [Text.trim_eq_self_iff, String.toList_append]
    have hmarkersne : markers.toList ≠ [] := List.ne_nil_of_mem hL
    constructor
    · obtain ⟨c, cs, hcs⟩ := List.exists_cons_of_ne_nil hmarkersne
      rw [hcs, List.cons_append]
      exact Text.dropBlanks_cons_of_not_blank (hblank c (hcs ▸ List.mem_cons_self))
    · have hend : Text.dropBlanksRight markers.toList = markers.toList := by
        have hlast := hblank _ (List.getLast_mem hmarkersne)
        have hconcat := Text.dropBlanksRight_concat hlast markers.toList.dropLast
        rwa [List.dropLast_concat_getLast hmarkersne] at hconcat
      rw [Text.dropBlanksRight_append hend, (Text.trim_eq_self_iff.1 htrim).2]
  refine read?_eq_some_iff.2 ⟨htext.symm, ?_, hL, first, rest, hname, ?_, ?_⟩
  · intro c hc
    rcases hmarkers c hc with rfl | rfl <;> decide
  · rw [hname, List.head?_cons] at hfirst
    have hL' : first ≠ 'L' := fun he => hfirst.1 (congrArg some he)
    have hbracket : first ≠ '[' := fun he => hfirst.2 (congrArg some he)
    simp [isMarker, hL', hbracket]
  · rwa [hname, List.tail_cons] at hclosed

theorem Request.suggestions_internalName (owner : Option String) {name : String} (hne : name ≠ "")
    (htrim : Text.trim name = name) (names : List String) :
    (Request.mk .internalName owner name).suggestions names =
      (Selection.longer name).apply names := by
  have hblank : ¬ Text.isBlankText name = true := by
    intro h
    exact hne (htrim ▸ Text.trim_eq_empty_iff.2 h)
  simp [suggestions, selection?, Completer.longerNames?, hblank, htrim]

theorem Request.suggestions_descriptor (owner : Option String) {typed : String}
    {d : OpenDescriptor} (hread : OpenDescriptor.read? typed = some d) (names : List String) :
    (Request.mk .descriptor owner typed).suggestions names = (Selection.closing d).apply names := by
  simp [suggestions, selection?, Completer.closedDescriptors?, hread]

/-! ## The list of names in a session -/

/-- Whatever an index holds was built from some sources, and it answers with the names of these or
of those in sight. -/
theorem NameIndex.pairwise_names_builtFrom (held : Option Sources) (s : Sources) :
    ((builtFrom held).names s).Pairwise (· < ·) := by
  cases held with
  | none => exact s.pairwise_classNames
  | some old =>
    by_cases hid : old.identity = s.identity
    · have hnames : (builtFrom (some old)).names s = old.classNames := names_of_built hid
      rw [hnames]
      exact old.pairwise_classNames
    · have hserves : (builtFrom (some old)).servesFor s.identity = false := by
        simp [builtFrom, servesFor, hid]
      rw [names, refresh, hserves]
      exact s.pairwise_classNames

namespace Session

/-- A request leaves every completer with the names that it would have answered with before. -/
theorem names_step_complete (s : Session) (j k : Nat) (r : Request) :
    ((s.step (.complete j r)).2.index k).names (s.step (.complete j r)).2.sources =
      (s.index k).names s.sources := by
  have hsources : (s.step (.complete j r)).2.sources = s.sources := sources_ask s j _
  rw [hsources, index_step, if_neg (by simp [Step.dropping?])]
  split
  · exact NameIndex.names_refresh _ _
  · rfl

/-- Of two requests that are made one after the other, in whatever order, each is answered from the
names that the completer would list before them. -/
theorem result_step_complete_twice {s : Session} {j : Nat} (hj : j < s.completers.length)
    {r q : Request} (hr : r.kind.fromNames = true) (hq : q.kind.fromNames = true) :
    (s.step (.complete j r)).1.result =
        .items (r.suggestions ((s.index j).names s.sources)) ∧
      ((s.step (.complete j r)).2.step (.complete j q)).1.result =
        .items (q.suggestions ((s.index j).names s.sources)) := by
  have hreading : ∀ {t : Request}, t.kind.fromNames = true →
      (Step.complete j t).reading? = some (j, t.suggestions) := by
    intro t ht
    simp [Step.reading?, ht]
  have hj' : j < (s.step (.complete j r)).2.completers.length := by
    rwa [step, length_ask]
  constructor
  · exact result_step (hreading hr) hj
  · rw [result_step (hreading hq) hj', names_step_complete]

/-- In every session, a name that is typed behind the markers of a descriptor is completed to the
same classes as the name alone, each with the markers in front and `;` behind it, in the same order,
except that the name itself comes first if the completer lists it. The two requests follow one
another in either order, and the list may be an old one. -/
theorem descriptor_items_eq_closed_names (classPath : ClassPath) (workspaces : List Workspace)
    (active : Option WorkspaceId) (past : List Step) (j : Nat) (owner : Option String)
    (markers name : String) :
    let start : Session := { classPath, workspaces, active }
    let now := start.after past
    let ofDescriptor : Step := .complete j ⟨.descriptor, owner, markers ++ name⟩
    let ofName : Step := .complete j ⟨.internalName, owner, name⟩
    j < now.completers.length → (∀ c ∈ markers.toList, c = 'L' ∨ c = '[') →
      'L' ∈ markers.toList → name ≠ "" → Text.trim name = name →
      (name.toList.head? ≠ some 'L' ∧ name.toList.head? ≠ some '[') →
      ';' ∉ name.toList.tail →
      ∃ names longer closed,
        (now.step (.names j)).1.result = .items names ∧
          closed = (if name ∈ names then name :: longer else longer).map
            (fun c => markers ++ c ++ ";") ∧
          (now.step ofDescriptor).1.result = .items closed ∧
          ((now.step ofDescriptor).2.step ofName).1.result = .items longer ∧
          (now.step ofName).1.result = .items longer ∧
          ((now.step ofName).2.step ofDescriptor).1.result = .items closed := by
  intro start now ofDescriptor ofName hj hmarkers hL hne htrim hfirst hclosed
  have hholds : now.index j = NameIndex.builtFrom (start.held j none past) :=
    holdsAll_none (index_start classPath workspaces active) past j
  -- old or new, the list is one of class names, and so in order
  have hpairwise : ((now.index j).names now.sources).Pairwise (· < ·) := by
    rw [hholds]
    exact NameIndex.pairwise_names_builtFrom _ _
  have hread : OpenDescriptor.read? (markers ++ name) = some ⟨markers, name⟩ :=
    OpenDescriptor.read?_append hmarkers hL hne htrim hfirst hclosed
  have hlonger := Request.suggestions_internalName owner hne htrim
    ((now.index j).names now.sources)
  have hclose := Request.suggestions_descriptor owner hread
    ((now.index j).names now.sources)
  rw [Selection.apply_closing_eq hpairwise] at hclose
  obtain ⟨hdescriptor, hname'⟩ := result_step_complete_twice hj
    (r := ⟨.descriptor, owner, markers ++ name⟩) (q := ⟨.internalName, owner, name⟩) rfl rfl
  obtain ⟨hname, hdescriptor'⟩ := result_step_complete_twice hj
    (r := ⟨.internalName, owner, name⟩) (q := ⟨.descriptor, owner, markers ++ name⟩) rfl rfl
  rw [hlonger] at hname hname'
  rw [hclose] at hdescriptor hdescriptor'
  have hnames : (now.step (.names j)).1.result = .items (id ((now.index j).names now.sources)) :=
    result_step rfl hj
  exact ⟨_, _, _, hnames, rfl, hdescriptor, hname', hname, hdescriptor'⟩

/-- A list that was built before a class was added, for an array over a class that is in it. -/
theorem descriptor_items_eq_closed_names_old_list :
    let start : Session :=
      { classPath := ClassPath.ofLists ["a/Bd", "a/B"] [], workspaces := [], active := none }
    let now := start.after [.names 0, .addName "a/Bc"]
    (0 < now.completers.length ∧ (∀ c ∈ "[L".toList, c = 'L' ∨ c = '[') ∧ 'L' ∈ "[L".toList ∧
        "a/B" ≠ "" ∧ Text.trim "a/B" = "a/B" ∧
        ("a/B".toList.head? ≠ some 'L' ∧ "a/B".toList.head? ≠ some '[') ∧
        ';' ∉ "a/B".toList.tail) ∧
      now.sources.Lists "a/Bc" ∧ (now.step (.names 0)).1.result = .items ["a/B", "a/Bd"] ∧
      ∃ longer,
        (now.step (.complete 0 ⟨.internalName, none, "a/B"⟩)).1.result = .items longer ∧
        (now.step (.complete 0 ⟨.descriptor, none, "[L" ++ "a/B"⟩)).1.result =
          .items (("a/B" :: longer).map fun c => "[L" ++ c ++ ";") := by
  intro start now
  have hypotheses : 0 < now.completers.length ∧ (∀ c ∈ "[L".toList, c = 'L' ∨ c = '[') ∧
      'L' ∈ "[L".toList ∧ "a/B" ≠ "" ∧ Text.trim "a/B" = "a/B" ∧
      ("a/B".toList.head? ≠ some 'L' ∧ "a/B".toList.head? ≠ some '[') ∧
      ';' ∉ "a/B".toList.tail := by
    refine ⟨by decide, ?_, by decide, by decide, by decide, by decide, by decide⟩
    intro c hc
    simpa [or_comm] using hc
  obtain ⟨hj, hmarkers, hL, hne, htrim, hfirst, hclosed⟩ := hypotheses
  obtain ⟨names, longer, closed, hnames, hitems, hdescriptor, -, hname, -⟩ :=
    descriptor_items_eq_closed_names start.classPath start.workspaces start.active
      [.names 0, .addName "a/Bc"] 0 none "[L" "a/B" hj hmarkers hL hne htrim hfirst hclosed
  have hlist : (now.step (.names 0)).1.result = .items ["a/B", "a/Bd"] := by
    have hkept : (now.index 0).names now.sources = ["a/B", "a/Bd"] :=
      (NameIndex.names_of_built (s := now.sources) rfl).trans
        (Sources.classNames_eq_of_perm (s := start.sources) (by decide) (by decide +kernel))
    rw [result_step rfl hj, hkept]
    rfl
  have hadded : now.sources.classPath.names = ["a/Bd", "a/B", "a/Bc"] := by
    simp only [now, start]
    decide +kernel
  obtain rfl : names = ["a/B", "a/Bd"] := Result.items.inj (hnames.symm.trans hlist)
  rw [if_pos (by decide)] at hitems
  rw [hitems] at hdescriptor
  exact ⟨⟨hj, hmarkers, hL, hne, htrim, hfirst, hclosed⟩, Or.inl (by rw [hadded]; decide), hlist,
    longer, hname, hdescriptor⟩

end Session

end JvmCompletion
