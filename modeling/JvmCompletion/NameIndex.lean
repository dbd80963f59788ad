import JvmCompletion.Sources

/-!
# The index of class names

Merging and sorting the names of a whole class path for every keystroke would be a waste, so a
completer keeps the list it has built last, together with the identity of the workspace that was
active then. The list serves as long as that identity is the active one. A change of contents goes
unnoticed until the list is dropped or another workspace has been completed in.
-/

namespace JvmCompletion

/-- A list of names that was built, and for which workspace. -/
structure BuiltNames where
  /-- The workspace that was active, `none` if there was none. -/
  identity : Option WorkspaceId
  /-- The names, sorted and each once. -/
  names : List String
  deriving DecidableEq, Repr

/-- The list of names that a completer keeps, if it keeps one. -/
structure NameIndex where
  /-- The list that was built last and has not been dropped. -/
  built : Option BuiltNames := none
  deriving DecidableEq, Repr

namespace NameIndex

/-- Whether a list is kept that serves while this identity is active. -/
def servesFor (index : NameIndex) (identity : Option WorkspaceId) : Bool :=
  index.built.any fun b => b.identity == identity

/-- The index after it was asked for the names in sight: a list that serves stays, any other makes
way for a new one. -/
def refresh (index : NameIndex) (s : Sources) : NameIndex :=
  if index.servesFor s.identity then index else ⟨some ⟨s.identity, s.classNames⟩⟩

/-- The number of lists that are built when the index is asked for the names in sight. -/
def builds (index : NameIndex) (s : Sources) : Nat :=
  if index.servesFor s.identity then 0 else 1

/-- The names that the index answers with. -/
def names (index : NameIndex) (s : Sources) : List String :=
  match (index.refresh s).built with
  | some b => b.names
  | none => []

/-- Drops the list. -/
def invalidate (_ : NameIndex) : NameIndex := {}

/-- An index without a list builds one. -/
@[simp] theorem names_empty (s : Sources) : names {} s = s.classNames := rfl

/-- A list that serves is what the index answers with. -/
theorem names_of_built {b : BuiltNames} {s : Sources} (h : b.identity = s.identity) :
    names ⟨some b⟩ s = b.names := by
  simp [names, refresh, servesFor, h]

/-- After it was asked, the index serves for the active identity. -/
@[simp] theorem servesFor_refresh (index : NameIndex) (s : Sources) :
    (index.refresh s).servesFor s.identity = true := by
  unfold refresh
  split
  · assumption
  · simp [servesFor]

/-- Asking for names leaves an index as it is exactly if its list serves. -/
theorem refresh_eq_self_iff {index : NameIndex} {s : Sources} :
    index.refresh s = index ↔ index.servesFor s.identity = true := by
  constructor
  · intro h
    have hserves := index.servesFor_refresh s
    rwa [h] at hserves
  · intro hserves
    rw [refresh, if_pos hserves]

/-- A list counts as built exactly if the index is another one afterwards. -/
theorem builds_eq_ite_refresh (index : NameIndex) (s : Sources) :
    index.builds s = if index.refresh s = index then 0 else 1 := by
  simp only [builds, refresh_eq_self_iff]

/-- An index answers with the same names when it is asked again. -/
theorem names_refresh (index : NameIndex) (s : Sources) :
    (index.refresh s).names s = index.names s := by
  rw [names, names, refresh_eq_self_iff.2 (index.servesFor_refresh s)]

end NameIndex

end JvmCompletion
