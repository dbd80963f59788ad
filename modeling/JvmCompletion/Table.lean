/-!
# Tables with one entry per key

A table maps texts to values. Putting a value under a key that is there already replaces the value,
so what is found under a key is what was put there last, and no key occurs twice. The keys keep the
order in which they were first put.
-/

namespace JvmCompletion

/-- Puts a value under a key of a list of entries: in place of the entry with that key, or at the
end. -/
def putEntry {α : Type} (key : String) (value : α) : List (String × α) → List (String × α)
  | [] => [(key, value)]
  | entry :: rest =>
    if entry.1 = key then (key, value) :: rest else entry :: putEntry key value rest

theorem mem_keys_putEntry {α : Type} {key k : String} {value : α} {entries : List (String × α)} :
    k ∈ (putEntry key value entries).map Prod.fst ↔ k = key ∨ k ∈ entries.map Prod.fst := by
  induction entries with
  | nil => simp [putEntry]
  | cons entry rest ih =>
    by_cases h : entry.1 = key
    · simp [putEntry, h]
    · simp only [putEntry, h, if_false, List.map_cons, List.mem_cons, ih]
      exact or_left_comm

theorem nodup_keys_putEntry {α : Type} (key : String) (value : α) {entries : List (String × α)}
    (h : (entries.map Prod.fst).Nodup) : ((putEntry key value entries).map Prod.fst).Nodup := by
  induction entries with
  | nil => simp [putEntry]
  | cons entry rest ih =>
    rw [List.map_cons, List.nodup_cons] at h
    by_cases hk : entry.1 = key
    · rw [hk] at h
      simpa [putEntry, hk] using h
    · simp only [putEntry, hk, if_false, List.map_cons, List.nodup_cons]
      refine ⟨fun hm => ?_, ih h.2⟩
      rcases mem_keys_putEntry.1 hm with e | e
      · exact hk e
      · exact h.1 e

/-- A map from texts to values. -/
structure Table (α : Type) where
  /-- The keys with their values, in the order in which the keys were first put. -/
  entries : List (String × α)
  /-- No key occurs twice. -/
  nodup_keys : (entries.map Prod.fst).Nodup

namespace Table

variable {α : Type}

/-- The table without entries. -/
def empty : Table α := ⟨[], List.nodup_nil⟩

/-- The keys, each once. -/
def keys (t : Table α) : List String := t.entries.map Prod.fst

/-- The number of keys. -/
def size (t : Table α) : Nat := t.entries.length

/-- Whether there are no keys. -/
def isEmpty (t : Table α) : Bool := t.entries.isEmpty

/-- The value under a key. -/
def find? (t : Table α) (key : String) : Option α := t.entries.lookup key

/-- Puts a value under a key, in place of the one that is there. -/
def put (t : Table α) (key : String) (value : α) : Table α :=
  ⟨putEntry key value t.entries, nodup_keys_putEntry key value t.nodup_keys⟩

@[simp] theorem keys_empty : (empty : Table α).keys = [] := rfl

@[simp] theorem find?_empty (key : String) : (empty : Table α).find? key = none := rfl

theorem size_eq_length_keys (t : Table α) : t.size = t.keys.length := List.length_map _ |>.symm

theorem isEmpty_iff {t : Table α} : t.isEmpty = true ↔ t.keys = [] := by
  simp [isEmpty, keys]

/-- What is found in a table after a value was put into it. -/
theorem find?_put (t : Table α) (key k : String) (value : α) :
    (t.put key value).find? k = if k = key then some value else t.find? k := by
  obtain ⟨entries, hn⟩ := t
  simp only [find?, put]
  clear hn
  induction entries with
  | nil => by_cases h : k = key <;> simp [putEntry, List.lookup_cons, h, beq_false_of_ne]
  | cons entry rest ih =>
    obtain ⟨j, w⟩ := entry
    by_cases hj : j = key
    · by_cases h : k = key
      · simp [putEntry, hj, h]
      · simp [putEntry, List.lookup_cons, hj, beq_false_of_ne h]
        simp [h]
    · by_cases h : k = j
      · subst h; simp [putEntry, hj]
      · simp only [putEntry, hj, if_false, List.lookup_cons, beq_false_of_ne h, ih]

/-- Something is found exactly under the keys. -/
theorem isSome_find?_iff {t : Table α} {key : String} : (t.find? key).isSome ↔ key ∈ t.keys := by
  simp [find?, keys, List.lookup_isSome_iff]

end Table

end JvmCompletion
