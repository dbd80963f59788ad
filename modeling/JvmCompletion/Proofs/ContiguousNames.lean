import JvmCompletion.Proofs.ByteOrder
import JvmCompletion.Proofs.Narrowing

/-!
# Suggested names stand next to each other

In a list that ascends, the names that begin with a text are found in one place. A name below the
text is below all of them, and one above it that does not begin with it differs from it at a
character that the text has, so it is above all of them as well. What is suggested for a class name
or a descriptor is therefore a segment of the list of names, whatever moment that was built at
(`class_hits_contiguous`).
-/

namespace JvmCompletion

/-! ## Words that begin with another one -/

/-- A word that is above another one and does not begin with it is above every word that does. -/
theorem Text.lt_of_prefix {opening cs ds : List Char} (hcs : opening <+: cs) (h : opening < ds)
    (hnot : ¬ opening <+: ds) : cs < ds := by
  induction h generalizing cs with
  | nil => exact absurd List.nil_prefix hnot
  | rel hcd =>
    obtain ⟨rest, rfl⟩ := hcs
    exact List.Lex.rel hcd
  | @cons c l m _ ih =>
    obtain ⟨rest, rfl⟩ := hcs
    have hrest : ¬ l <+: m := fun hm => hnot (List.cons_prefix_cons.2 ⟨rfl, hm⟩)
    exact List.Lex.cons (ih (List.prefix_append l rest) hrest)

theorem Text.lt_of_begins {opening name other : String} (hname : begins opening name = true)
    (h : opening < other) (hnot : ¬ begins opening other = true) : name < other := by
  rw [begins, List.isPrefixOf_iff_prefix] at hname hnot
  rw [String.lt_iff_toList_lt] at h ⊢
  exact lt_of_prefix hname h hnot

/-! ## Segments of a list -/

namespace Names

/-- The names in `hits` all begin with `query` and stand in `names` one after another. Those before
them are below `query`, unless they are `query` itself, and those after them are above it and do not
begin with it. -/
def IsSegment (query : String) (hits names : List String) : Prop :=
  ∃ before after, names = before ++ hits ++ after ∧
    (∀ name ∈ before, name ≠ query → Text.bytes name < Text.bytes query) ∧
    (∀ name ∈ hits, ∃ rest, query ++ rest = name) ∧
    ∀ name ∈ after, Text.bytes query < Text.bytes name ∧ ¬ ∃ rest, query ++ rest = name

/-- A list that ascends strictly is made up of the names below a text, those that begin with it and
the others. -/
theorem eq_append_begins {names : List String} (h : names.Pairwise (· < ·)) (opening : String) :
    names = names.filter (fun name => name < opening) ++
      names.filter (fun name => Text.begins opening name) ++
      names.filter (fun name => opening < name ∧ ¬ Text.begins opening name = true) := by
  refine eq_of_pairwise_lt h ?_ fun name => ?_
  · rw [List.pairwise_append, List.pairwise_append]
    refine ⟨⟨h.filter _, h.filter _, ?_⟩, h.filter _, ?_⟩
    · intro low hlow hit hhit
      have hbelow : low < opening := by simpa using (List.mem_filter.1 hlow).2
      exact lt_of_lt_of_le hbelow (Text.le_of_begins (List.mem_filter.1 hhit).2)
    · intro name hname high hhigh
      obtain ⟨habove, hnot⟩ : opening < high ∧ ¬ Text.begins opening high = true := by
        simpa using (List.mem_filter.1 hhigh).2
      rcases List.mem_append.1 hname with hlow | hhit
      · have hbelow : name < opening := by simpa using (List.mem_filter.1 hlow).2
        exact lt_trans hbelow habove
      · exact Text.lt_of_begins (List.mem_filter.1 hhit).2 habove hnot
  · simp only [List.mem_append, List.mem_filter, decide_eq_true_eq]
    constructor
    · intro hname
      by_cases hbegins : Text.begins opening name = true
      · exact Or.inl (Or.inr ⟨hname, hbegins⟩)
      rcases lt_trichotomy name opening with hlow | rfl | hhigh
      · exact Or.inl (Or.inl ⟨hname, hlow⟩)
      · exact absurd (Text.begins_self name) hbegins
      · exact Or.inr ⟨hname, hhigh, hbegins⟩
    · rintro ((⟨hname, -⟩ | ⟨hname, -⟩) | ⟨hname, -⟩) <;> exact hname

/-- The names that begin with a text are a segment of a list that ascends strictly. -/
theorem isSegment_begins {names : List String} (h : names.Pairwise (· < ·)) (query : String) :
    IsSegment query (names.filter fun name => Text.begins query name) names := by
  refine ⟨_, _, eq_append_begins h query, ?_, ?_, ?_⟩
  · intro name hname _
    rw [Text.bytes_lt_iff]
    simpa using (List.mem_filter.1 hname).2
  · intro name hname
    exact Text.begins_iff_append.1 (List.mem_filter.1 hname).2
  · intro name hname
    rw [Text.bytes_lt_iff, ← Text.begins_iff_append]
    simpa using (List.mem_filter.1 hname).2

/-- A segment for a text that starts with the text is one without it too. -/
theorem IsSegment.tail {query : String} {hits names : List String}
    (h : IsSegment query (query :: hits) names) : IsSegment query hits names := by
  obtain ⟨before, after, hnames, hbefore, hhits, hafter⟩ := h
  refine ⟨before ++ [query], after, by simpa using hnames, ?_, ?_, hafter⟩
  · intro name hname hne
    rcases List.mem_append.1 hname with hlow | hsame
    · exact hbefore name hlow hne
    · exact absurd (List.mem_singleton.1 hsame) hne
  · exact fun name hname => hhits name (List.mem_cons_of_mem _ hname)

end Names

theorem Selection.isSegment_longer {names : List String} (h : names.Pairwise (· < ·))
    (typed : String) : Names.IsSegment typed ((Selection.longer typed).apply names) names := by
  have hsegment := Names.isSegment_begins h typed
  rw [filter_begins h] at hsegment
  split at hsegment
  · exact hsegment.tail
  · exact hsegment

/-! ## Requests in a session -/

namespace Session

/-- Whatever has happened in a session, the list of names that a completer answers from is in
order. -/
theorem pairwise_names_after (classPath : ClassPath) (workspaces : List Workspace)
    (active : Option WorkspaceId) (past : List Step) (j : Nat) :
    let start : Session := { classPath, workspaces, active }
    let now := start.after past
    ((now.index j).names now.sources).Pairwise (· < ·) := by
  intro start now
  have hholds : now.index j = NameIndex.builtFrom (start.held j none past) :=
    holdsAll_none (index_start classPath workspaces active) past j
  rw [hholds]
  exact NameIndex.pairwise_names_builtFrom _ _

/-- In every session, the suggestions for a class name are a segment of the list of names that the
completer answers from, old or new. In front of it are names that are below the typed text in the
order of their bytes, and maybe that text itself; behind it are names above the text that do not
begin with it. So are the class names of which the suggestions for a descriptor are made. -/
theorem class_hits_contiguous (classPath : ClassPath) (workspaces : List Workspace)
    (active : Option WorkspaceId) (past : List Step) (j : Nat) (owner : Option String)
    (typed : String) :
    let start : Session := { classPath, workspaces, active }
    let now := start.after past
    let result : Kind → Result := fun kind => (now.step (.complete j ⟨kind, owner, typed⟩)).1.result
    j < now.completers.length → Text.trim typed ≠ "" →
      ∃ names, (now.step (.names j)).1.result = .items names ∧
        (∃ hits, result .internalName = .items hits ∧ Text.trim typed ∉ hits ∧
          Names.IsSegment (Text.trim typed) hits names) ∧
        (OpenDescriptor.read? typed = none → result .descriptor = .items []) ∧
        ∀ d, OpenDescriptor.read? typed = some d →
          ∃ hits, result .descriptor = .items (hits.map fun name => d.markers ++ name ++ ";") ∧
            (d.name ∈ names → d.name ∈ hits) ∧ Names.IsSegment d.name hits names := by
  intro start now result hj htyped
  have hpairwise : ((now.index j).names now.sources).Pairwise (· < ·) :=
    pairwise_names_after classPath workspaces active past j
  have hnames : (now.step (.names j)).1.result = .items (id ((now.index j).names now.sources)) :=
    result_step rfl hj
  have hname : result .internalName = _ := result_complete hj ⟨.internalName, owner, typed⟩
  have hdescriptor : result .descriptor = _ := result_complete hj ⟨.descriptor, owner, typed⟩
  rw [Completer.items_internalName, if_neg htyped] at hname
  rw [Completer.items_descriptor] at hdescriptor
  refine ⟨_, hnames, ⟨_, hname, ?_, Selection.isSegment_longer hpairwise _⟩, ?_, ?_⟩
  · exact fun hmem => (Selection.mem_apply_longer.1 hmem).2.2 rfl
  · intro hread
    rw [hdescriptor, hread]
  · intro d hread
    rw [hread] at hdescriptor
    refine ⟨_, hdescriptor, fun hmem => ?_, Names.isSegment_begins hpairwise d.name⟩
    exact List.mem_filter.2 ⟨hmem, Text.begins_self d.name⟩

/-- The hits in a list that was built before another class was added: a name that goes on from the
typed one with `$`, which is below every letter, stands right behind it. -/
theorem class_hits_contiguous_old_list :
    let start : Session :=
      { classPath := ClassPath.ofLists ["a/Bc", "a/C", "a/B$C", "a", "a/B"] [], workspaces := [],
        active := none }
    let now := start.after [.names 0, .addName "a/Bd"]
    let names := ["a", "a/B", "a/B$C", "a/Bc", "a/C"]
    (0 < now.completers.length ∧ Text.trim " a/B" ≠ "" ∧ Text.trim "[La/B" ≠ "" ∧
        OpenDescriptor.read? "[La/B" = some ⟨"[L", "a/B"⟩) ∧
      (now.step (.names 0)).1.result = .items names ∧
      ((now.step (.complete 0 ⟨.internalName, none, " a/B"⟩)).1.result =
          .items ["a/B$C", "a/Bc"] ∧
        Names.IsSegment "a/B" ["a/B$C", "a/Bc"] names) ∧
      (now.step (.complete 0 ⟨.descriptor, none, "[La/B"⟩)).1.result =
          .items ["[La/B;", "[La/B$C;", "[La/Bc;"] ∧
        ∃ hits, hits.map (fun name => "[L" ++ name ++ ";") = ["[La/B;", "[La/B$C;", "[La/Bc;"] ∧
          "a/B" ∈ hits ∧ Names.IsSegment "a/B" hits names := by
  intro start now names
  have hypotheses : 0 < now.completers.length ∧ Text.trim " a/B" ≠ "" ∧
      Text.trim "[La/B" ≠ "" ∧ OpenDescriptor.read? "[La/B" = some ⟨"[L", "a/B"⟩ := by decide
  obtain ⟨hj, hname, hdescriptor, hread⟩ := hypotheses
  have hkept : (now.index 0).names now.sources = names :=
    (NameIndex.names_of_built (s := now.sources) rfl).trans
      (Sources.classNames_eq_of_perm (s := start.sources) (by decide) (by decide +kernel))
  have hlist : (now.step (.names 0)).1.result = .items names := by
    rw [result_step rfl hj, hkept]
    rfl
  have hlonger : (now.step (.complete 0 ⟨.internalName, none, " a/B"⟩)).1.result =
      .items ["a/B$C", "a/Bc"] := by
    rw [result_complete hj, Completer.items_internalName, hkept]
    decide
  have hclosed : (now.step (.complete 0 ⟨.descriptor, none, "[La/B"⟩)).1.result =
      .items ["[La/B;", "[La/B$C;", "[La/Bc;"] := by
    rw [result_complete hj, Completer.items_descriptor, hread, hkept]
    decide
  obtain ⟨list, hshown, ⟨hits, hhits, -, hsegment⟩, -⟩ :=
    class_hits_contiguous start.classPath [] none [.names 0, .addName "a/Bd"] 0 none " a/B" hj
      hname
  obtain ⟨list', hshown', -, -, hdescriptors⟩ :=
    class_hits_contiguous start.classPath [] none [.names 0, .addName "a/Bd"] 0 none "[La/B" hj
      hdescriptor
  obtain ⟨found, hfound, hmem, hsegment'⟩ := hdescriptors _ hread
  obtain rfl := Result.items.inj (hlist.symm.trans hshown)
  obtain rfl := Result.items.inj (hlist.symm.trans hshown')
  obtain rfl := Result.items.inj (hlonger.symm.trans hhits)
  have htrim : Text.trim " a/B" = "a/B" := by decide
  rw [htrim] at hsegment
  exact ⟨⟨hj, hname, hdescriptor, hread⟩, hlist, ⟨hlonger, hsegment⟩, hclosed, found,
    Result.items.inj (hfound.symm.trans hclosed), hmem (by decide), hsegment'⟩

end Session

end JvmCompletion
