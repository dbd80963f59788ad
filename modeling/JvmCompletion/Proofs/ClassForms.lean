import JvmCompletion.Class.Spelling
import JvmCompletion.Proofs.JsonRecords

/-!
# The JSON forms of classes

A class, a method or a field has a form in JSON, and each of them can be spelled as an object or as
an array, whichever way the others are spelled. `classes_read_exactly` says that the readers of
class files and of the classes of the runtime take every spelling, take nothing else, and take each
one as what it spells.
-/

namespace JvmCompletion

open Json

/-! ## The forms -/

/-- How members of class files are spelled. -/
def Member.form : Form Member :=
  .record [("name", .text), ("descriptor", .text)] fun m =>
    [.required "name" .text m.name, .required "descriptor" .text m.descriptor]

/-- How class files are spelled. -/
def ClassFile.form : Form ClassFile :=
  .record
    [("name", .text), ("methods", .list Member.form.shape), ("fields", .list Member.form.shape)]
    fun c =>
      [.required "name" .text c.name, .optional "methods" (.list Member.form) [] c.methods,
        .optional "fields" (.list Member.form) [] c.fields]

/-- How methods of classes of the runtime are spelled. -/
def ReflectedMethod.form : Form ReflectedMethod :=
  .record [("name", .text), ("parameters", .list .text), ("returns", .text)] fun m =>
    [.required "name" .text m.name, .optional "parameters" (.list .text) [] m.parameters,
      .optional "returns" .text "void" m.returns]

/-- How fields of classes of the runtime are spelled. -/
def ReflectedField.form : Form ReflectedField :=
  .record [("name", .text), ("type", .text)] fun f =>
    [.required "name" .text f.name, .required "type" .text f.type]

/-- How classes of the runtime are spelled. -/
def ReflectedClass.form : Form ReflectedClass :=
  .record
    [("name", .text), ("methods", .list ReflectedMethod.form.shape),
      ("fields", .list ReflectedField.form.shape)]
    fun c =>
      [.required "name" .text c.name,
        .optional "methods" (.list ReflectedMethod.form) [] c.methods,
        .optional "fields" (.list ReflectedField.form) [] c.fields]

/-! ## The readers -/

theorem Member.form_exact : Member.form.Exact Member.ofDocument? := by
  refine Form.exact_record (by simp) (fun _ => rfl) ?_ ?_
  · intro m
    simp [FieldForm.sound_required Form.exact_text]
  · rintro entries hentries ⟨name, descriptor⟩
    simp [← FieldForm.required?_eq_some_iff hentries Form.exact_text, Option.bind_eq_some_iff]

theorem ClassFile.form_exact : ClassFile.form.Exact ClassFile.ofDocument? := by
  have hmembers := Form.exact_list Member.form_exact
  refine Form.exact_record (by simp) (fun _ => rfl) ?_ ?_
  · intro c
    simp [FieldForm.sound_required Form.exact_text, FieldForm.sound_optional hmembers]
  · rintro entries hentries ⟨name, methods, fields⟩
    simp [← FieldForm.required?_eq_some_iff hentries Form.exact_text,
      ← FieldForm.optional?_eq_some_iff hentries hmembers, Option.bind_eq_some_iff]

theorem ReflectedMethod.form_exact : ReflectedMethod.form.Exact ReflectedMethod.ofDocument? := by
  have hparameters := Form.exact_list Form.exact_text
  refine Form.exact_record (by simp) (fun _ => rfl) ?_ ?_
  · intro m
    simp [FieldForm.sound_required Form.exact_text, FieldForm.sound_optional hparameters,
      FieldForm.sound_optional Form.exact_text]
  · rintro entries hentries ⟨name, parameters, returns⟩
    simp [← FieldForm.required?_eq_some_iff hentries Form.exact_text,
      ← FieldForm.optional?_eq_some_iff hentries hparameters,
      ← FieldForm.optional?_eq_some_iff hentries Form.exact_text, Option.bind_eq_some_iff]

theorem ReflectedField.form_exact : ReflectedField.form.Exact ReflectedField.ofDocument? := by
  refine Form.exact_record (by simp) (fun _ => rfl) ?_ ?_
  · intro f
    simp [FieldForm.sound_required Form.exact_text]
  · rintro entries hentries ⟨name, type⟩
    simp [← FieldForm.required?_eq_some_iff hentries Form.exact_text, Option.bind_eq_some_iff]

theorem ReflectedClass.form_exact : ReflectedClass.form.Exact ReflectedClass.ofDocument? := by
  have hmethods := Form.exact_list ReflectedMethod.form_exact
  have hfields := Form.exact_list ReflectedField.form_exact
  refine Form.exact_record (by simp) (fun _ => rfl) ?_ ?_
  · intro c
    simp [FieldForm.sound_required Form.exact_text, FieldForm.sound_optional hmethods,
      FieldForm.sound_optional hfields]
  · rintro entries hentries ⟨name, methods, fields⟩
    simp [← FieldForm.required?_eq_some_iff hentries Form.exact_text,
      ← FieldForm.optional?_eq_some_iff hentries hmethods,
      ← FieldForm.optional?_eq_some_iff hentries hfields, Option.bind_eq_some_iff]

/-! ## What is read and what is written -/

/-- A value is read as a class exactly if it spells the class. A class is read back from what is
written for it, writing what was read changes nothing more, and a value with a part of the wrong
type, or with `null` for a part, is not read at all. -/
theorem classes_read_exactly (j : Json) (hj : j.KeysDistinct) :
    ((∀ c, ClassFile.ofDocument? j = some c ↔ ClassFile.form.spelled c j) ∧
      (∀ c : ClassFile, ClassFile.ofDocument? c.toJson = some c) ∧
      (∀ c, ClassFile.ofDocument? j = some c →
        (ClassFile.ofDocument? c.toJson).map ClassFile.toJson = some c.toJson) ∧
      (j.Misfits ClassFile.form.shape → ClassFile.ofDocument? j = none)) ∧
    ((∀ c, ReflectedClass.ofDocument? j = some c ↔ ReflectedClass.form.spelled c j) ∧
      (∀ c : ReflectedClass, ReflectedClass.ofDocument? c.toJson = some c) ∧
      (∀ c, ReflectedClass.ofDocument? j = some c →
        (ReflectedClass.ofDocument? c.toJson).map ReflectedClass.toJson = some c.toJson) ∧
      (j.Misfits ReflectedClass.form.shape → ReflectedClass.ofDocument? j = none)) ∧
    ∀ shape, Misfits shape .null := by
  have hfile : ∀ c : ClassFile, ClassFile.ofDocument? c.toJson = some c :=
    ClassFile.form_exact.read_write
  have hreflected : ∀ c : ReflectedClass, ReflectedClass.ofDocument? c.toJson = some c :=
    ReflectedClass.form_exact.read_write
  refine ⟨⟨ClassFile.form_exact.read_iff hj, hfile, ?_, ClassFile.form_exact.read_eq_none hj⟩,
    ⟨ReflectedClass.form_exact.read_iff hj, hreflected, ?_,
      ReflectedClass.form_exact.read_eq_none hj⟩, misfits_null⟩
  · intro c _
    rw [hfile c, Option.map_some]
  · intro c _
    rw [hreflected c, Option.map_some]

/-- One value that spells a class of either kind: an object whose entries are out of order, with an
unknown one among them, in which a method is spelled by names and a field in order. -/
theorem classes_read_exactly_mixed :
    ∃ j : Json, j.KeysDistinct ∧
      ClassFile.form.spelled ⟨"A", [⟨"run", "()V"⟩], [⟨"f", "I"⟩]⟩ j ∧
      ReflectedClass.form.spelled ⟨"A", [⟨"run", [], "int"⟩], [⟨"f", "I"⟩]⟩ j := by
  have hj : (Json.object
      [("fields", .array [.array [.string "f", .string "I"]]),
        ("access", .object [("name", .null)]),
        ("methods", .array [.object
          [("returns", .string "int"), ("descriptor", .string "()V"), ("name", .string "run")]]),
        ("name", .string "A")]).KeysDistinct := by simp
  obtain ⟨⟨hfile, -⟩, ⟨hreflected, -⟩, -⟩ := classes_read_exactly _ hj
  exact ⟨_, hj, (hfile _).mp (by rfl), (hreflected _).mp (by rfl)⟩

end JvmCompletion
