import JvmCompletion.Json
import Mathlib.Data.List.Forall2
import Mathlib.Data.List.Nodup

/-!
# Records in JSON

A record is spelled in JSON by an object that has its fields under their names, or by an array that
has them in order. What a field can be varies with its type, so a type has a `Form`: the values that
spell each of its members, the one of these that is written, and the shape that they have in common.
There are forms for texts, for lists and for records, and a form is exact for a reader if that gets
out of a value what the value spells and nothing else.

`Form.exact_record` takes exactness from the fields of a record to the record. A value can also miss
its shape in a part only, which may lie deep. `Misfits` says which values do, and they are read as
nothing.
-/

namespace JvmCompletion

open Document

theorem lookup_eq_none_iff_not_mem {α : Type} {entries : List (String × α)} {key : String} :
    entries.lookup key = none ↔ key ∉ entries.map Prod.fst := by
  rw [List.lookup_eq_none_iff, List.mem_map]
  refine ⟨?_, ?_⟩
  · rintro h ⟨e, he, rfl⟩
    exact bne_iff_ne.mp (h e he) rfl
  · intro h e he
    exact bne_iff_ne.mpr fun hkey => h ⟨e, he, hkey.symm⟩

/-- Entries with different keys are found under them. -/
theorem lookup_eq_some_iff_mem {α : Type} {entries : List (String × α)}
    (hkeys : (entries.map Prod.fst).Nodup) {key : String} {v : α} :
    entries.lookup key = some v ↔ (key, v) ∈ entries := by
  induction entries with
  | nil => simp
  | cons e rest ih =>
    obtain ⟨k, first⟩ := e
    obtain ⟨hk, hrest⟩ := List.nodup_cons.mp hkeys
    rw [List.lookup_cons, List.mem_cons, ← ih hrest]
    by_cases hkey : key = k
    · subst hkey
      have hnone : rest.lookup key = none := lookup_eq_none_iff_not_mem.mpr hk
      simp [hnone, eq_comm]
    · simp [hkey, beq_eq_false_iff_ne.mpr hkey]

theorem map_fst_zip_sublist {α : Type} (names : List String) (elements : List α) :
    ((names.zip elements).map Prod.fst).Sublist names := by
  induction names generalizing elements with
  | nil => simp
  | cons name rest ih =>
    cases elements with
    | nil => simp
    | cons v elements => simpa using (ih elements).cons_cons name

theorem exists_of_mem_right {β γ : Type} {R : β → γ → Prop} {items : List β} {elements : List γ}
    (h : List.Forall₂ R items elements) {v : γ} (hv : v ∈ elements) : ∃ a, R a v := by
  induction h with
  | nil => cases hv
  | cons hfirst _ ih =>
    rcases List.mem_cons.mp hv with rfl | hv
    · exact ⟨_, hfirst⟩
    · exact ih hv

namespace Json

/-- No object within a value has two entries with the same key. -/
inductive KeysDistinct : Json → Prop
  | null : KeysDistinct .null
  | bool (b : Bool) : KeysDistinct (.bool b)
  | number (mantissa : Int) (exponent : Nat) : KeysDistinct (.number mantissa exponent)
  | string (s : String) : KeysDistinct (.string s)
  | array {elements : List Json} (helements : ∀ v ∈ elements, KeysDistinct v) :
      KeysDistinct (.array elements)
  | object {entries : List (String × Json)} (hkeys : (entries.map Prod.fst).Nodup)
      (hentries : ∀ e ∈ entries, KeysDistinct e.2) : KeysDistinct (.object entries)

attribute [simp] KeysDistinct.null KeysDistinct.bool KeysDistinct.number KeysDistinct.string

@[simp]
theorem keysDistinct_array {elements : List Json} :
    (array elements).KeysDistinct ↔ ∀ v ∈ elements, v.KeysDistinct := by
  refine ⟨?_, .array⟩
  intro h
  cases h with
  | array helements => exact helements

@[simp]
theorem keysDistinct_object {entries : List (String × Json)} :
    (object entries).KeysDistinct ↔
      (entries.map Prod.fst).Nodup ∧ ∀ e ∈ entries, e.2.KeysDistinct := by
  refine ⟨?_, fun h => .object h.1 h.2⟩
  intro h
  cases h with
  | object hkeys hentries => exact ⟨hkeys, hentries⟩

/-! ## Shapes -/

/-- What a value is read as. -/
inductive Shape where
  /-- A text. -/
  | text
  /-- A list, every element of which has the same shape. -/
  | list (element : Shape)
  /-- A record with the given fields. -/
  | record (fields : List (String × Shape))

/-- A value is not what is expected of it, itself or in one of the parts that are read. -/
inductive Misfits : Shape → Json → Prop
  | text {j : Json} (h : ∀ s, j ≠ .string s) : Misfits .text j
  | list {shape : Shape} {j : Json} (h : ∀ elements, j ≠ .array elements) : Misfits (.list shape) j
  | element {shape : Shape} {elements : List Json} {v : Json} (hv : v ∈ elements)
      (h : Misfits shape v) : Misfits (.list shape) (.array elements)
  | record {fields : List (String × Shape)} {j : Json} (harray : ∀ elements, j ≠ .array elements)
      (hobject : ∀ entries, j ≠ .object entries) : Misfits (.record fields) j
  /-- A field that an object has under its name. -/
  | named {fields : List (String × Shape)} {entries : List (String × Json)} {name : String}
      {shape : Shape} {v : Json} (hfield : (name, shape) ∈ fields) (hv : (name, v) ∈ entries)
      (h : Misfits shape v) : Misfits (.record fields) (.object entries)
  /-- A field that an array has at its place. -/
  | placed {fields : List (String × Shape)} {elements : List Json} {name : String} {shape : Shape}
      {v : Json} (hv : ((name, shape), v) ∈ fields.zip elements) (h : Misfits shape v) :
      Misfits (.record fields) (.array elements)

/-- Nothing is spelled by `null`. -/
theorem misfits_null (shape : Shape) : Misfits shape .null := by
  cases shape with
  | text => exact .text (by simp)
  | list => exact .list (by simp)
  | record => exact .record (by simp) (by simp)

/-! ## Forms -/

/-- How the members of a type are spelled. -/
structure Form (α : Type) where
  /-- The shape of everything that spells a member of the type. -/
  shape : Shape
  /-- The value that is written for a member. -/
  write : α → Json
  /-- A value spells a member. -/
  spelled : α → Json → Prop

/-- What there is to say about one field of a record. -/
structure FieldForm where
  name : String
  shape : Shape
  /-- The value that is written for what the field holds. -/
  written : Json
  /-- A value spells what the field holds. -/
  spelled : Json → Prop
  /-- The field need not be there. -/
  omissible : Prop

namespace FieldForm

variable {α : Type}

/-- A field that holds `a` and has to be there. -/
def required (name : String) (form : Form α) (a : α) : FieldForm :=
  ⟨name, form.shape, form.write a, form.spelled a, False⟩

/-- A field that holds `a` and need not be there if that is what it holds by default. -/
def optional (name : String) (form : Form α) (absent a : α) : FieldForm :=
  ⟨name, form.shape, form.write a, form.spelled a, a = absent⟩

/-- The entries have the field under its name, or leave it out where they may. -/
def HeldBy (f : FieldForm) (entries : List (String × Json)) : Prop :=
  (∃ v, (f.name, v) ∈ entries ∧ f.spelled v) ∨ (f.omissible ∧ f.name ∉ entries.map Prod.fst)

/-- The elements are the fields in order, without some of the last ones that may be left out. -/
inductive InOrder : List FieldForm → List Json → Prop
  | dropped {fields : List FieldForm} (h : ∀ f ∈ fields, f.omissible) : InOrder fields []
  | given {f : FieldForm} {fields : List FieldForm} {v : Json} {elements : List Json}
      (hv : f.spelled v) (hrest : InOrder fields elements) : InOrder (f :: fields) (v :: elements)

end FieldForm

/-- The value spells the record with the given fields. The entries of an object come in any order,
and those that are no fields do not matter. -/
inductive SpellsRecord (fields : List FieldForm) : Json → Prop
  | byName {entries : List (String × Json)} (h : ∀ f ∈ fields, f.HeldBy entries) :
      SpellsRecord fields (.object entries)
  | inOrder {elements : List Json} (h : FieldForm.InOrder fields elements) :
      SpellsRecord fields (.array elements)

theorem FieldForm.inOrder_cons {f : FieldForm} {fields : List FieldForm} {v : Json}
    {elements : List Json} :
    InOrder (f :: fields) (v :: elements) ↔ f.spelled v ∧ InOrder fields elements := by
  refine ⟨?_, fun h => .given h.1 h.2⟩
  intro h
  cases h with
  | given hv hrest => exact ⟨hv, hrest⟩

theorem spellsRecord_object {fields : List FieldForm} {entries : List (String × Json)} :
    SpellsRecord fields (.object entries) ↔ ∀ f ∈ fields, f.HeldBy entries := by
  refine ⟨?_, .byName⟩
  intro h
  cases h with
  | byName h => exact h

theorem spellsRecord_array {fields : List FieldForm} {elements : List Json} :
    SpellsRecord fields (.array elements) ↔ FieldForm.InOrder fields elements := by
  refine ⟨?_, .inOrder⟩
  intro h
  cases h with
  | inOrder h => exact h

namespace Form

variable {α : Type}

/-- The form of texts. -/
def text : Form String := ⟨.text, .string, fun s j => j = .string s⟩

/-- The form of lists of things that have a form themselves. -/
def list (form : Form α) : Form (List α) where
  shape := .list form.shape
  write items := .array (items.map form.write)
  spelled items j := ∃ elements, j = .array elements ∧ List.Forall₂ form.spelled items elements

/-- The form of records with the given fields. -/
def record (shapes : List (String × Shape)) (fields : α → List FieldForm) : Form α where
  shape := .record shapes
  write a := .object ((fields a).map fun f => (f.name, f.written))
  spelled a := SpellsRecord (fields a)

/-- A reader gets out of a value what the value spells, and what is written for a member of the type
is among the values that spell it. -/
structure Exact (form : Form α) (read : Json → Option α) : Prop where
  read_iff : ∀ ⦃j : Json⦄, j.KeysDistinct → ∀ a, read j = some a ↔ form.spelled a j
  fits : ∀ ⦃j : Json⦄, j.KeysDistinct → ∀ a, form.spelled a j → ¬ j.Misfits form.shape
  distinct : ∀ a, (form.write a).KeysDistinct
  spelled_write : ∀ a, form.spelled a (form.write a)

namespace Exact

variable {form : Form α} {read : Json → Option α}

theorem read_write (h : form.Exact read) (a : α) : read (form.write a) = some a :=
  (h.read_iff (h.distinct a) a).mpr (h.spelled_write a)

theorem read_eq_none (h : form.Exact read) {j : Json} (hj : j.KeysDistinct)
    (hmisfits : j.Misfits form.shape) : read j = none := by
  rw [Option.eq_none_iff_forall_ne_some]
  intro a ha
  exact h.fits hj a ((h.read_iff hj a).mp ha) hmisfits

end Exact

/-! ## Texts and lists -/

theorem exact_text : text.Exact text? where
  read_iff j _ s := by cases j <;> simp [text?, text]
  fits := by
    rintro j - s rfl ⟨h⟩
    exact h s rfl
  distinct _ := .string _
  spelled_write _ := rfl

variable {form : Form α} {read : Json → Option α}

theorem Exact.mapM_read_iff (h : form.Exact read) {elements : List Json}
    (helements : ∀ v ∈ elements, v.KeysDistinct) (items : List α) :
    elements.mapM read = some items ↔ List.Forall₂ form.spelled items elements := by
  induction elements generalizing items with
  | nil => simp [eq_comm]
  | cons v rest ih =>
    obtain ⟨hv, hrest⟩ := List.forall_mem_cons.mp helements
    simp only [List.mapM_cons, Option.bind_eq_bind, Option.bind_eq_some_iff, Option.pure_def,
      Option.some.injEq, h.read_iff hv, ih hrest, List.forall₂_cons_right_iff]
    refine exists_congr fun a => ?_
    simp only [exists_and_left, eq_comm]

theorem exact_list (h : form.Exact read) : form.list.Exact (listOf? read) where
  read_iff j hj items := by
    cases j with
    | array elements =>
      simpa [listOf?, list?, list] using h.mapM_read_iff (keysDistinct_array.mp hj) items
    | _ => simp [listOf?, list?, list]
  fits := by
    rintro j hj items ⟨elements, rfl, hspelled⟩ hmisfits
    cases hmisfits with
    | list hlist => exact hlist elements rfl
    | @element _ _ v hv hmisfits =>
      obtain ⟨a, ha⟩ := exists_of_mem_right hspelled hv
      exact h.fits (keysDistinct_array.mp hj v hv) a ha hmisfits
  distinct items := by simpa [list] using fun a _ => h.distinct a
  spelled_write items := by
    refine ⟨_, rfl, ?_⟩
    rw [List.forall₂_map_right_iff, List.forall₂_same]
    exact fun a _ => h.spelled_write a

end Form

/-! ## Records -/

namespace FieldForm

/-- What is written for a field spells it, and everything that spells it has its shape. -/
structure Sound (f : FieldForm) : Prop where
  fits : ∀ ⦃v : Json⦄, v.KeysDistinct → f.spelled v → ¬ v.Misfits f.shape
  distinct : f.written.KeysDistinct
  spelled_written : f.spelled f.written

section Reading

variable {α : Type} {form : Form α} {read : Json → Option α}

theorem sound_required (h : form.Exact read) (name : String) (a : α) :
    (required name form a).Sound :=
  ⟨fun _ hv => h.fits hv a, h.distinct a, h.spelled_write a⟩

theorem sound_optional (h : form.Exact read) (name : String) (absent a : α) :
    (optional name form absent a).Sound :=
  ⟨fun _ hv => h.fits hv a, h.distinct a, h.spelled_write a⟩

variable {entries : List (String × Json)} (hentries : (object entries).KeysDistinct)

include hentries

theorem required?_eq_some_iff (h : form.Exact read) (name : String) (a : α) :
    required? entries name read = some a ↔ (required name form a).HeldBy entries := by
  obtain ⟨hkeys, hvalues⟩ := keysDistinct_object.mp hentries
  simp only [required?, Option.bind_eq_some_iff, HeldBy, required, false_and, or_false,
    lookup_eq_some_iff_mem hkeys]
  refine exists_congr fun v => and_congr_right fun hv => ?_
  exact h.read_iff (hvalues _ hv) a

theorem optional?_eq_some_iff (h : form.Exact read) (name : String) (absent a : α) :
    optional? entries name absent read = some a ↔
      (optional name form absent a).HeldBy entries := by
  obtain ⟨hkeys, hvalues⟩ := keysDistinct_object.mp hentries
  rw [optional?, HeldBy, optional, ← lookup_eq_none_iff_not_mem]
  simp only [← lookup_eq_some_iff_mem hkeys]
  cases hv : entries.lookup name with
  | none => simp [eq_comm]
  | some v =>
    have hdistinct : v.KeysDistinct := hvalues _ ((lookup_eq_some_iff_mem hkeys).mp hv)
    simpa using h.read_iff hdistinct a

end Reading

end FieldForm

section Records

variable {fields : List FieldForm}

theorem FieldForm.heldBy_cons_self {f : FieldForm} {v : Json} {entries : List (String × Json)}
    (hname : f.name ∉ entries.map Prod.fst) :
    f.HeldBy ((f.name, v) :: entries) ↔ f.spelled v := by
  have hnot : ∀ u, (f.name, u) ∉ entries := fun u hu => hname (List.mem_map.mpr ⟨_, hu, rfl⟩)
  simp [HeldBy, hnot]

theorem FieldForm.heldBy_cons_of_ne {f : FieldForm} {name : String} (hname : f.name ≠ name)
    (v : Json) (entries : List (String × Json)) :
    f.HeldBy ((name, v) :: entries) ↔ f.HeldBy entries := by
  simp [HeldBy, hname]

theorem FieldForm.heldBy_filter {f : FieldForm} {names : List String} (hname : f.name ∈ names)
    (entries : List (String × Json)) :
    f.HeldBy (entries.filter fun e => names.contains e.1) ↔ f.HeldBy entries := by
  simp [HeldBy, hname]

/-- Elements are the fields in order exactly if they have them under the names that they get when
they are read side by side with all of the names. -/
theorem FieldForm.inOrder_iff (hnames : (fields.map name).Nodup) {elements : List Json} :
    InOrder fields elements ↔ elements.length ≤ fields.length ∧
      ∀ f ∈ fields, f.HeldBy ((fields.map name).zip elements) := by
  -- On the fields, each of which takes an element with it. What the name of a field stands for is
  -- not lost on the way to the fields after it, as these have other names.
  induction fields generalizing elements with
  | nil =>
    refine ⟨?_, ?_⟩
    · rintro ⟨⟩
      simp
    · rintro ⟨hlength, -⟩
      obtain rfl : elements = [] := List.eq_nil_of_length_eq_zero (by simpa using hlength)
      exact .dropped (by simp)
  | cons f rest ih =>
    cases elements with
    | nil =>
      refine ⟨?_, ?_⟩
      · rintro ⟨h⟩
        simpa [HeldBy] using h
      · rintro ⟨-, h⟩
        exact .dropped (by simpa [HeldBy] using h)
    | cons v elements =>
      obtain ⟨hf, hrest⟩ := List.nodup_cons.mp hnames
      have hself : f.name ∉ ((rest.map name).zip elements).map Prod.fst :=
        fun h => hf ((map_fst_zip_sublist _ _).subset h)
      have hothers : ∀ g ∈ rest, g.name ≠ f.name :=
        fun g hg h => hf (h ▸ List.mem_map.mpr ⟨g, hg, rfl⟩)
      rw [inOrder_cons, ih hrest, List.map_cons, List.zip_cons_cons, List.forall_mem_cons,
        heldBy_cons_self hself, List.length_cons, List.length_cons, Nat.add_le_add_iff_right,
        and_left_comm]
      refine and_congr_right fun _ => and_congr_right fun _ => forall₂_congr fun g hg => ?_
      rw [heldBy_cons_of_ne (hothers g hg)]

/-- The entries that are found in a value have no two for the same field. -/
theorem keysDistinct_of_fields? {names : List String} (hnames : names.Nodup) {j : Json}
    (hj : j.KeysDistinct) {entries : List (String × Json)}
    (h : fields? names false j = some entries) : (object entries).KeysDistinct := by
  rw [keysDistinct_object]
  cases j with
  | array elements =>
    obtain ⟨-, rfl⟩ : elements.length ≤ names.length ∧ names.zip elements = entries := by
      simpa [fields?, list?, surplus] using h
    refine ⟨hnames.sublist (map_fst_zip_sublist _ _), ?_⟩
    rintro ⟨name, v⟩ he
    exact keysDistinct_array.mp hj v (List.of_mem_zip he).2
  | object all =>
    obtain rfl : all.filter (fun e => names.contains e.1) = entries := by
      simpa [fields?, list?, entries?, skippable] using h
    obtain ⟨hkeys, hvalues⟩ := keysDistinct_object.mp hj
    exact ⟨hkeys.sublist (List.filter_sublist.map _),
      fun e he => hvalues e (List.mem_of_mem_filter he)⟩
  | _ => simp [fields?, list?, entries?] at h

/-- A value spells a record exactly if entries are found in it that have the fields. -/
theorem spellsRecord_iff (hnames : (fields.map FieldForm.name).Nodup) (j : Json) :
    SpellsRecord fields j ↔ ∃ entries, fields? (fields.map FieldForm.name) false j = some entries ∧
      ∀ f ∈ fields, f.HeldBy entries := by
  cases j with
  | array elements =>
    rw [spellsRecord_array, FieldForm.inOrder_iff hnames]
    by_cases hlength : elements.length ≤ fields.length
    · simp [fields?, list?, surplus, hlength]
    · simp [fields?, list?, surplus, hlength]
  | object entries =>
    have hfields : fields? (fields.map FieldForm.name) false (.object entries) =
        some (entries.filter fun e => (fields.map FieldForm.name).contains e.1) := by
      simp [fields?, list?, entries?, skippable]
    rw [spellsRecord_object, hfields]
    simp only [Option.some.injEq, exists_eq_left']
    refine forall₂_congr fun f hf => ?_
    rw [FieldForm.heldBy_filter (List.mem_map.mpr ⟨f, hf, rfl⟩)]
  | _ =>
    refine ⟨?_, ?_⟩
    · rintro ⟨⟩
    · simp [fields?, list?, entries?]

theorem FieldForm.HeldBy.spelled_of_mem {f : FieldForm} {entries : List (String × Json)}
    (h : f.HeldBy entries) (hkeys : (entries.map Prod.fst).Nodup) {v : Json}
    (hv : (f.name, v) ∈ entries) : f.spelled v := by
  rcases h with ⟨u, hu, hspelled⟩ | ⟨-, hmissing⟩
  · have hsame : some u = some v := by
      rw [← (lookup_eq_some_iff_mem hkeys).mpr hu, (lookup_eq_some_iff_mem hkeys).mpr hv]
    cases hsame
    exact hspelled
  · exact absurd (List.mem_map.mpr ⟨_, hv, rfl⟩) hmissing

theorem FieldForm.InOrder.exists_spelled_of_mem {elements : List Json}
    (h : InOrder fields elements) {name : String} {shape : Shape} {v : Json}
    (hv : ((name, shape), v) ∈ (fields.map fun f => (f.name, f.shape)).zip elements) :
    ∃ f ∈ fields, f.shape = shape ∧ f.spelled v := by
  induction h with
  | dropped => simp at hv
  | @given f _ _ _ hspelled _ ih =>
    rw [List.map_cons, List.zip_cons_cons, List.mem_cons] at hv
    rcases hv with hhere | hlater
    · cases hhere
      exact ⟨f, List.mem_cons_self, rfl, hspelled⟩
    · obtain ⟨g, hg, hshape⟩ := ih hlater
      exact ⟨g, List.mem_cons_of_mem f hg, hshape⟩

/-- What spells a record has the shape of the record, if that is so for its fields. -/
theorem SpellsRecord.not_misfits {j : Json} (h : SpellsRecord fields j) (hj : j.KeysDistinct)
    (hsound : ∀ f ∈ fields, f.Sound) :
    ¬ j.Misfits (.record (fields.map fun f => (f.name, f.shape))) := by
  intro hmisfits
  cases hmisfits with
  | record harray hobject =>
    cases h with
    | byName => exact hobject _ rfl
    | inOrder => exact harray _ rfl
  | named hfield hv hpart =>
    obtain ⟨hkeys, hvalues⟩ := keysDistinct_object.mp hj
    obtain ⟨f, hf, hname⟩ := List.mem_map.mp hfield
    cases hname
    have hspelled := (spellsRecord_object.mp h f hf).spelled_of_mem hkeys hv
    exact (hsound f hf).fits (hvalues _ hv) hspelled hpart
  | @placed _ _ _ _ v hv hpart =>
    obtain ⟨f, hf, rfl, hspelled⟩ := (spellsRecord_array.mp h).exists_spelled_of_mem hv
    have hdistinct := keysDistinct_array.mp hj v (List.of_mem_zip hv).2
    exact (hsound f hf).fits hdistinct hspelled hpart

end Records

/-- The form of a record is exact for a reader that looks for the fields and then takes what it
reads out of the entries, if this is what the fields hold. -/
theorem Form.exact_record {α : Type} {shapes : List (String × Shape)} {fields : α → List FieldForm}
    {take : List (String × Json) → Option α} (hnames : (shapes.map Prod.fst).Nodup)
    (hshapes : ∀ a, (fields a).map (fun f => (f.name, f.shape)) = shapes)
    (hsound : ∀ a, ∀ f ∈ fields a, f.Sound)
    (htake : ∀ ⦃entries : List (String × Json)⦄, (object entries).KeysDistinct →
      ∀ a, take entries = some a ↔ ∀ f ∈ fields a, f.HeldBy entries) :
    (record shapes fields).Exact fun j => (fields? (shapes.map Prod.fst) false j).bind take := by
  have hfieldNames : ∀ a, (fields a).map FieldForm.name = shapes.map Prod.fst := by
    intro a
    rw [← hshapes a, List.map_map]
    rfl
  refine ⟨?_, ?_, ?_, ?_⟩
  · intro j hj a
    have hspells := spellsRecord_iff (hfieldNames a ▸ hnames) j
    rw [hfieldNames] at hspells
    rw [Option.bind_eq_some_iff]
    refine Iff.trans ?_ hspells.symm
    refine exists_congr fun entries => and_congr_right fun hentries => ?_
    exact htake (keysDistinct_of_fields? hnames hj hentries) a
  · intro j hj a h
    rw [record, ← hshapes a]
    exact SpellsRecord.not_misfits h hj (hsound a)
  · intro a
    rw [record, keysDistinct_object, List.map_map]
    refine ⟨?_, ?_⟩
    · exact hfieldNames a ▸ hnames
    · intro e he
      obtain ⟨f, hf, rfl⟩ := List.mem_map.mp he
      exact (hsound a f hf).distinct
  · intro a
    refine .byName fun f hf => .inl ⟨f.written, List.mem_map.mpr ⟨f, hf, rfl⟩, ?_⟩
    exact (hsound a f hf).spelled_written

end Json

end JvmCompletion
