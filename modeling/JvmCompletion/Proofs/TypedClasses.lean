import JvmCompletion.Proofs.Members
import JvmCompletion.Proofs.TypeSpellings
import Mathlib.Data.List.Forall2

/-!
# One class from two sources

The same class may be known from its bytecode and from the runtime. `TypedClass` is what both of
them tell about: the members with their types, without regard to how these are written down. A class
file has the descriptors of the types, reflection spells each of them in some way, and
`members_of_either_source` says that this makes no difference to what completers suggest.
-/

namespace JvmCompletion

/-- A method with its types. -/
structure TypedMethod where
  name : String
  parameters : List JvmType
  returns : JvmType

/-- A field with its type. -/
structure TypedField where
  name : String
  type : JvmType

/-- The members of a class with their types. -/
structure TypedClass where
  methods : List TypedMethod
  fields : List TypedField

/-- What related members are made into is the same if it is the same for any two of them. -/
theorem map_eq_map_of_forall₂ {α β γ : Type} {R : α → β → Prop} {f : α → γ} {g : β → γ}
    (h : ∀ a b, R a b → f a = g b) {l : List α} {m : List β} (hlm : List.Forall₂ R l m) :
    l.map f = m.map g := by
  rw [← List.forall₂_eq_eq_eq]
  exact List.rel_map h hlm

namespace TypedMethod

/-- The method in a class file. -/
def toMember (m : TypedMethod) : Member :=
  ⟨m.name, "(" ++ String.join (m.parameters.map JvmType.descriptor) ++ ")" ++ m.returns.descriptor⟩

/-- Reflection reports the method, with each of its types in some spelling. -/
structure SpelledBy (m : TypedMethod) (r : ReflectedMethod) : Prop where
  name : m.name = r.name
  parameters : List.Forall₂ JvmType.Spells m.parameters r.parameters
  returns : m.returns.Spells r.returns

theorem SpelledBy.toMember_eq {m : TypedMethod} {r : ReflectedMethod} (h : m.SpelledBy r) :
    m.toMember = r.toMember := by
  have hparameters : m.parameters.map JvmType.descriptor =
      r.parameters.map Descriptor.ofTypeName := by
    refine map_eq_map_of_forall₂ ?_ h.parameters
    intro t text ht
    exact (Descriptor.ofTypeName_of_spells ht).symm
  rw [toMember, ReflectedMethod.toMember, Descriptor.ofMethod, h.name, hparameters,
    Descriptor.ofTypeName_of_spells h.returns]

end TypedMethod

namespace TypedField

/-- The field in a class file. -/
def toMember (f : TypedField) : Member := ⟨f.name, f.type.descriptor⟩

/-- Reflection reports the field, with its type in some spelling. -/
structure SpelledBy (f : TypedField) (r : ReflectedField) : Prop where
  name : f.name = r.name
  type : f.type.Spells r.type

theorem SpelledBy.toMember_eq {f : TypedField} {r : ReflectedField} (h : f.SpelledBy r) :
    f.toMember = r.toMember := by
  rw [toMember, ReflectedField.toMember, h.name, Descriptor.ofTypeName_of_spells h.type]

end TypedField

namespace TypedClass

/-- The class file of the class, under a name. -/
def toClassFile (c : TypedClass) (name : String) : ClassFile :=
  ⟨name, c.methods.map TypedMethod.toMember, c.fields.map TypedField.toMember⟩

/-- Reflection reports the members of the class in the order of declaration, with each occurrence
of a type in some spelling. -/
structure SpelledBy (c : TypedClass) (r : ReflectedClass) : Prop where
  methods : List.Forall₂ TypedMethod.SpelledBy c.methods r.methods
  fields : List.Forall₂ TypedField.SpelledBy c.fields r.fields

variable {c : TypedClass} {r : ReflectedClass}

theorem SpelledBy.members_eq (h : c.SpelledBy r) (name : String) (kind : MemberKind) :
    (c.toClassFile name).members kind = r.members kind := by
  cases kind with
  | method =>
    refine map_eq_map_of_forall₂ ?_ h.methods
    intro m reported hm
    exact hm.toMember_eq
  | field =>
    refine map_eq_map_of_forall₂ ?_ h.fields
    intro f reported hf
    exact hf.toMember_eq

theorem SpelledBy.signatures_eq (h : c.SpelledBy r) (name : String) (kind : MemberKind) :
    (c.toClassFile name).signatures kind = r.signatures kind := by
  rw [ClassFile.signatures, ReflectedClass.signatures, h.members_eq]

end TypedClass

/-! ## A class over the runtime -/

theorem Sources.signatures?_congr {s t : Sources} {owner : String} (kind : MemberKind)
    (hpath : s.classPath = t.classPath)
    (hresident : s.resident? (Text.trim owner) = t.resident? (Text.trim owner)) :
    s.signatures? owner kind = t.signatures? owner kind := by
  rw [signatures?_eq, signatures?_eq, hpath, hresident]

/-- A class in the active workspace answers like the class of the runtime that it covers, if the two
have the same signatures. -/
theorem Sources.signatures?_of_covered {s t : Sources} {owner : String} {kind : MemberKind}
    {c : ClassFile} {r : ReflectedClass} (hs : s.resident? (Text.trim owner) = some c)
    (ht : t.resident? (Text.trim owner) = none)
    (hload : t.classPath.load? (ClassName.toBinary (Text.trim owner)) = some r)
    (hsame : c.signatures kind = r.signatures kind) :
    s.signatures? owner kind = t.signatures? owner kind := by
  rw [signatures?_eq, signatures?_eq, hs, ht, hload]
  split
  · rfl
  · rw [Option.map_some, Option.some_or, Option.map_none, Option.none_or, Option.map_some, hsame]

namespace Session

/-- What a completer suggests for members depends on the signatures it finds. -/
theorem result_members_congr {s t : Session} {kind : MemberKind} {owner : Option String}
    (hlen : s.completers.length = t.completers.length)
    (h : s.sources.signatures? (owner.getD "") kind = t.sources.signatures? (owner.getD "") kind)
    (j : Nat) (typed : String) :
    (s.step (.complete j ⟨kind.toKind, owner, typed⟩)).1.result =
      (t.step (.complete j ⟨kind.toKind, owner, typed⟩)).1.result := by
  by_cases hj : j < s.completers.length
  · rw [(step_members hj kind owner typed).1, (step_members (hlen ▸ hj) kind owner typed).1, h]
  · have hs : s.completers.length ≤ j := Nat.le_of_not_lt hj
    rw [step, step, ask_of_le hs, ask_of_le (hlen ▸ hs)]
    rfl

/-- What a session has in sight after a class was put into its active workspace. -/
theorem sources_step_putClass {s : Session} {w : Workspace} (h : s.sources.active = some w)
    (c : ClassFile) :
    (s.step (.putClass w.id c)).2.sources = ⟨s.classPath, some (w.putClass c)⟩ := by
  obtain ⟨id, hactive, hid⟩ := Option.bind_eq_some_iff.1 h
  have hput : (s.putClass w.id c).sources.active = some (w.putClass c) := by
    have hlookup : (s.putClass w.id c).sources.active = (s.putClass w.id c).workspace? id := by
      rw [sources, putClass, hactive]
      rfl
    rw [hlookup, workspace?_putClass, hid, Option.map_some, if_pos rfl]
  rw [step_putClass]
  exact congrArg (Sources.mk s.classPath) hput

/-- A class that reflection reports and a class file of the same members have the same signatures,
however reflection spells each type. So nothing that is suggested for any owner changes when the
class file is put into the active workspace over a class that only the runtime has. Whatever the
workspace had under the name before, the class file then answers as the runtime does without a
workspace. -/
theorem members_of_either_source {c : TypedClass} {r : ReflectedClass} (h : c.SpelledBy r) :
    (∀ (name : String) (kind : MemberKind),
      (c.toClassFile name).signatures kind = r.signatures kind) ∧
    ∀ (s : Session) (w : Workspace) (name : String), s.sources.active = some w →
      s.classPath.load? (ClassName.toBinary name) = some r →
      let put := (s.step (.putClass w.id (c.toClassFile name))).2
      put.sources.resident? name = some (c.toClassFile name) ∧
      ∀ (j : Nat) (kind : MemberKind) (owner : Option String) (typed : String),
        let complete : Step := .complete j ⟨kind.toKind, owner, typed⟩
        (w.class? name = none → (put.step complete).1.result = (s.step complete).1.result) ∧
        (Text.trim (owner.getD "") = name →
          (put.step complete).1.result = ((s.step .close).2.step complete).1.result) := by
  refine ⟨h.signatures_eq, ?_⟩
  intro s w name hactive hload put
  have hsources : put.sources = ⟨s.classPath, some (w.putClass (c.toClassFile name))⟩ :=
    sources_step_putClass hactive _
  have hresident : ∀ k, put.sources.resident? k =
      if k = name then some (c.toClassFile name) else w.class? k := by
    intro k
    rw [hsources]
    exact Workspace.class?_putClass ..
  have hput : put.sources.resident? name = some (c.toClassFile name) := by
    rw [hresident, if_pos rfl]
  have hlen : put.completers.length = s.completers.length := by
    have hcompleters : put.completers = (s.putClass w.id (c.toClassFile name)).completers :=
      congrArg completers (step_putClass ..)
    rw [hcompleters, putClass]
  refine ⟨hput, ?_⟩
  intro j kind owner typed complete
  constructor
  · intro hnone
    refine result_members_congr hlen ?_ j typed
    by_cases hname : Text.trim (owner.getD "") = name
    · subst hname
      refine Sources.signatures?_of_covered hput ?_ hload (h.signatures_eq ..)
      rw [Sources.resident?, hactive]
      exact hnone
    · -- under any other name the workspace has what it had
      refine Sources.signatures?_congr kind ?_ ?_
      · rw [hsources]
        rfl
      · rw [hresident, if_neg hname, Sources.resident?, hactive]
        rfl
  · rintro rfl
    exact result_members_congr (t := (s.step .close).2) hlen
      (Sources.signatures?_of_covered hput rfl hload (h.signatures_eq ..)) j typed

/-- A class that reflection reports with a source form full of blanks beside two binary forms. -/
theorem members_of_either_source_mixed_spellings :
    let rows : JvmType := .array (.array (.reference "a.b.C"))
    let c : TypedClass := ⟨[⟨"put", [.array (.primitive .int), rows], rows⟩], []⟩
    let r : ReflectedClass := ⟨"p.Q", [⟨"put", ["[I", " a.b.C [] []"], "[[La.b.C;"⟩], []⟩
    let s := ofLists [] [r] [("w", [])] (some "w")
    let w := Workspace.ofList "w" []
    let complete : Step := .complete 0 ⟨.method, some "p/Q", "p"⟩
    let put := (s.step (.putClass "w" (c.toClassFile "p/Q"))).2
    c.SpelledBy r ∧ s.sources.active = some w ∧ w.class? "p/Q" = none ∧
      s.classPath.load? (ClassName.toBinary "p/Q") = some r ∧
      r.signatures .method = (c.toClassFile "p/Q").signatures .method ∧
      (put.step complete).1.result = .items ["put([I[[La/b/C;)[[La/b/C;"] ∧
      (s.step complete).1.result = .items ["put([I[[La/b/C;)[[La/b/C;"] := by
  intro rows c r s w complete put
  have hword : ClassName.IsWord "a.b.C" :=
    ⟨by decide, by decide, by decide, by decide, fun p => by cases p <;> decide⟩
  have hblank : ∀ c ∈ [' '], Text.isBlank c = true := List.forall_mem_singleton.2 (by decide)
  have hnone : ∀ c ∈ ([] : List Char), Text.isBlank c = true := List.forall_mem_nil _
  have hrow : (JvmType.array (.reference "a.b.C")).SourceForm _ := .brackets (.name hword) hblank
  have hsource : rows.Spells " a.b.C [] []" := .source (.brackets hrow hblank) hblank hnone rfl
  have hints : (JvmType.array (.primitive .int)).Spells "[I" := .binary hnone hnone rfl
  have hrows : rows.Spells "[[La.b.C;" := .binary hnone hnone rfl
  have hspelled : c.SpelledBy r :=
    ⟨.cons ⟨rfl, .cons hints (.cons hsource .nil), hrows⟩ .nil, .nil⟩
  have hactive : s.sources.active = some w := by
    simp only [s]
    rfl
  have hload : s.classPath.load? (ClassName.toBinary "p/Q") = some r := by
    simp only [s, r]
    decide +kernel
  have habsent : w.class? "p/Q" = none := by decide
  obtain ⟨hsignatures, hsession⟩ := members_of_either_source hspelled
  obtain ⟨-, hcomplete⟩ := hsession s w "p/Q" hactive hload
  have hsame := (hcomplete 0 .method (some "p/Q") "p").1 habsent
  have hput : (put.step complete).1.result = .items ["put([I[[La/b/C;)[[La/b/C;"] := by
    simp only [put, complete, s, c, r, rows]
    decide +kernel
  exact ⟨hspelled, hactive, habsent, hload, (hsignatures "p/Q" .method).symm, hput,
    hsame.symm.trans hput⟩

end Session

end JvmCompletion
