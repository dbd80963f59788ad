import JvmCompletion.Proofs.TypedClasses
import Mathlib.Data.List.Nodup

/-!
# Signatures tell members apart

The descriptor of a method has the descriptors of its parameters one behind the other, with nothing
between them. They can still be told apart, since no descriptor of a type goes on to another one:
`descriptorChars_append_inj` takes the first one off a text in the only way there is, and an
induction takes off the others. So two methods have one signature only if they have one name and the
same types throughout, and of overloads none is lost; `signature_eq_iff_same_member` says so for
members in any spelling.

This needs names that the signature keeps whole: no `/` in a class name, which is also what becomes
of a dot, no `;`, which ends it, and nothing in the name of a member that starts the descriptor.
-/

namespace JvmCompletion

/-- A class name that is read off a descriptor as it is. -/
structure ClassName.IsPlain (name : String) : Prop where
  no_slash : '/' ∉ name.toList
  no_semicolon : ';' ∉ name.toList

/-- All class names in the type are plain. -/
def JvmType.IsPlain : JvmType → Prop
  | .primitive _ => True
  | .reference name => ClassName.IsPlain name
  | .array element => element.IsPlain

/-- The types are plain, and the name ends where the descriptor starts. -/
structure TypedMethod.IsPlain (m : TypedMethod) : Prop where
  name : '(' ∉ m.name.toList
  parameters : ∀ t ∈ m.parameters, t.IsPlain
  returns : m.returns.IsPlain

/-- The type is plain, and the name ends where the space is that divides it from the descriptor. -/
structure TypedField.IsPlain (f : TypedField) : Prop where
  name : ' ' ∉ f.name.toList
  type : f.type.IsPlain

/-- All members are plain. -/
structure TypedClass.IsPlain (c : TypedClass) : Prop where
  methods : ∀ m ∈ c.methods, m.IsPlain
  fields : ∀ f ∈ c.fields, f.IsPlain

/-! ## Taking texts apart -/

/-- A text is divided in one way at the first occurrence of a character. -/
theorem append_cons_inj_of_not_mem {c : Char} {l m rest rest' : List Char} (hl : c ∉ l) (hm : c ∉ m)
    (h : l ++ c :: rest = m ++ c :: rest') : l = m ∧ rest = rest' := by
  rcases List.append_eq_append_iff.1 h with ⟨more, rfl, hmore⟩ | ⟨more, rfl, hmore⟩
  · cases more with
    | nil => exact ⟨(List.append_nil l).symm, (List.cons.inj hmore).2⟩
    | cons d more =>
      obtain ⟨rfl, -⟩ := List.cons.inj hmore
      exact absurd (List.mem_append_right l List.mem_cons_self) hm
  · cases more with
    | nil => exact ⟨List.append_nil m, (List.cons.inj hmore).2.symm⟩
    | cons d more =>
      obtain ⟨rfl, -⟩ := List.cons.inj hmore
      exact absurd (List.mem_append_right m List.mem_cons_self) hl

namespace ClassName

theorem toBinary_eq_self {name : String} (h : '/' ∉ name.toList) : toBinary name = name := by
  apply String.toList_inj.1
  rw [toList_toBinary]
  refine (List.map_congr_left fun c hc => if_neg ?_).trans (List.map_id _)
  rintro rfl
  exact h hc

/-- Plain names of one internal form are one name. -/
theorem IsPlain.toInternal_inj {first second : String} (hfirst : IsPlain first)
    (hsecond : IsPlain second) (h : toInternal first = toInternal second) : first = second := by
  rw [← toBinary_eq_self hfirst.no_slash, ← toBinary_eq_self hsecond.no_slash]
  exact toBinary_eq_iff.2 h

theorem IsPlain.not_mem_toInternal {name : String} (h : IsPlain name) :
    ';' ∉ (toInternal name).toList := by
  rw [toList_toInternal, List.mem_map]
  rintro ⟨c, hc, hsemicolon⟩
  split at hsemicolon
  · exact absurd hsemicolon (by decide)
  · subst hsemicolon
    exact h.no_semicolon hc

end ClassName

namespace JvmType

theorem letter_inj {p q : Primitive} (h : p.letter = q.letter) : p = q := by
  revert h
  cases p <;> cases q <;> decide

theorem letter_ne (p : Primitive) : p.letter ≠ 'L' ∧ p.letter ≠ '[' ∧ p.letter ≠ ')' := by
  cases p <;> decide

/-- No descriptor goes on to another one: the type that a text begins with is determined, and so is
what follows it. -/
theorem descriptorChars_append_inj {t t' : JvmType} (ht : t.IsPlain) (ht' : t'.IsPlain)
    {rest rest' : List Char} (h : t.descriptorChars ++ rest = t'.descriptorChars ++ rest') :
    t = t' ∧ rest = rest' := by
  induction t generalizing t' with
  | primitive p =>
    obtain ⟨hL, hbracket, -⟩ := letter_ne p
    cases t' with
    | primitive q =>
      obtain ⟨hletter, hrest⟩ := List.cons.inj h
      exact ⟨congrArg primitive (letter_inj hletter), hrest⟩
    | reference name => exact absurd (List.cons.inj h).1 hL
    | array element => exact absurd (List.cons.inj h).1 hbracket
  | reference name =>
    cases t' with
    | primitive q => exact absurd (List.cons.inj h).1.symm (letter_ne q).1
    | reference name' =>
      have hnames : (ClassName.toInternal name).toList ++ ';' :: rest =
          (ClassName.toInternal name').toList ++ ';' :: rest' := by
        simpa [descriptorChars] using h
      -- the name goes up to the first `;`
      obtain ⟨hname, hrest⟩ := append_cons_inj_of_not_mem
        (ClassName.IsPlain.not_mem_toInternal ht) (ClassName.IsPlain.not_mem_toInternal ht') hnames
      have hsame := ClassName.IsPlain.toInternal_inj ht ht' (String.toList_inj.1 hname)
      exact ⟨congrArg reference hsame, hrest⟩
    | array element => exact absurd (List.cons.inj h).1 (by decide)
  | array element ih =>
    cases t' with
    | primitive q => exact absurd (List.cons.inj h).1.symm (letter_ne q).2.1
    | reference name => exact absurd (List.cons.inj h).1 (by decide)
    | array element' =>
      have hplain : element'.IsPlain := ht'
      obtain ⟨helement, hrest⟩ := ih ht hplain (List.cons.inj h).2
      exact ⟨congrArg array helement, hrest⟩

/-- A descriptor does not start with the parenthesis that closes a list of parameters. -/
theorem descriptorChars_append_ne (t : JvmType) (rest rest' : List Char) :
    t.descriptorChars ++ rest ≠ ')' :: rest' := by
  intro h
  cases t with
  | primitive p => exact (letter_ne p).2.2 (List.cons.inj h).1
  | reference name => exact absurd (List.cons.inj h).1 (by decide)
  | array element => exact absurd (List.cons.inj h).1 (by decide)

/-- The descriptors of parameters, up to the parenthesis that closes them, determine the types. -/
theorem flatMap_descriptorChars_inj {ts ts' : List JvmType} (hts : ∀ t ∈ ts, t.IsPlain)
    (hts' : ∀ t ∈ ts', t.IsPlain) {rest rest' : List Char}
    (h : ts.flatMap descriptorChars ++ ')' :: rest =
      ts'.flatMap descriptorChars ++ ')' :: rest') : ts = ts' ∧ rest = rest' := by
  induction ts generalizing ts' with
  | nil =>
    cases ts' with
    | nil => exact ⟨rfl, (List.cons.inj h).2⟩
    | cons t' ts' =>
      rw [List.flatMap_cons, List.append_assoc] at h
      exact absurd h.symm (descriptorChars_append_ne t' _ _)
  | cons t ts ih =>
    rw [List.flatMap_cons, List.append_assoc] at h
    cases ts' with
    | nil => exact absurd h (descriptorChars_append_ne t _ _)
    | cons t' ts' =>
      rw [List.flatMap_cons, List.append_assoc] at h
      obtain ⟨hfirst, hothers⟩ := List.forall_mem_cons.1 hts
      obtain ⟨hfirst', hothers'⟩ := List.forall_mem_cons.1 hts'
      obtain ⟨rfl, hchars⟩ := descriptorChars_append_inj hfirst hfirst' h
      obtain ⟨rfl, hrest⟩ := ih hothers hothers' hchars
      exact ⟨rfl, hrest⟩

end JvmType

/-! ## Members -/

/-- The descriptor of a method determines the types of the parameters and of the result. -/
theorem JvmType.methodChars_inj {ts ts' : List JvmType} {t t' : JvmType}
    (h : ∀ u ∈ t :: ts, u.IsPlain) (h' : ∀ u ∈ t' :: ts', u.IsPlain)
    (hchars : ts.flatMap descriptorChars ++ ')' :: t.descriptorChars =
      ts'.flatMap descriptorChars ++ ')' :: t'.descriptorChars) : ts = ts' ∧ t = t' := by
  obtain ⟨hresult, hparameters⟩ := List.forall_mem_cons.1 h
  obtain ⟨hresult', hparameters'⟩ := List.forall_mem_cons.1 h'
  obtain ⟨hts, ht⟩ := flatMap_descriptorChars_inj hparameters hparameters' hchars
  have hend : t.descriptorChars ++ [] = t'.descriptorChars ++ [] := by rw [ht]
  exact ⟨hts, (descriptorChars_append_inj hresult hresult' hend).1⟩

namespace TypedMethod

theorem toList_descriptor_toMember (m : TypedMethod) :
    m.toMember.descriptor.toList =
      '(' :: (m.parameters.flatMap JvmType.descriptorChars ++
        ')' :: m.returns.descriptorChars) := by
  simp [toMember, List.flatMap_map]

/-- The name of a method ends at the first parenthesis of its signature, and what follows are its
types. -/
theorem signature_inj {m m' : TypedMethod} (h : m.IsPlain) (h' : m'.IsPlain) :
    m.toMember.signature .method = m'.toMember.signature .method ↔ m = m' := by
  refine ⟨fun hsignature => ?_, congrArg fun k : TypedMethod => k.toMember.signature .method⟩
  have hlists : m.name.toList ++ m.toMember.descriptor.toList =
      m'.name.toList ++ m'.toMember.descriptor.toList := by
    simpa [Member.signature, toMember] using congrArg String.toList hsignature
  rw [toList_descriptor_toMember, toList_descriptor_toMember] at hlists
  obtain ⟨hname, hdescriptor⟩ := append_cons_inj_of_not_mem h.name h'.name hlists
  obtain ⟨hparameters, hreturns⟩ := JvmType.methodChars_inj
    (List.forall_mem_cons.2 ⟨h.returns, h.parameters⟩)
    (List.forall_mem_cons.2 ⟨h'.returns, h'.parameters⟩) hdescriptor
  cases m
  cases m'
  cases String.toList_inj.1 hname
  cases hparameters
  cases hreturns
  rfl

end TypedMethod

/-- The name of a field ends at the first space of its signature, and what follows is its type. -/
theorem TypedField.signature_inj {f f' : TypedField} (h : f.IsPlain) (h' : f'.IsPlain) :
    f.toMember.signature .field = f'.toMember.signature .field ↔ f = f' := by
  refine ⟨fun hsignature => ?_, congrArg fun k : TypedField => k.toMember.signature .field⟩
  have hlists : f.name.toList ++ ' ' :: f.type.descriptorChars =
      f'.name.toList ++ ' ' :: f'.type.descriptorChars := by
    simpa [Member.signature, toMember] using congrArg String.toList hsignature
  obtain ⟨hname, hdescriptor⟩ := append_cons_inj_of_not_mem h.name h'.name hlists
  have hend : f.type.descriptorChars ++ [] = f'.type.descriptorChars ++ [] := by rw [hdescriptor]
  obtain ⟨htype, -⟩ := JvmType.descriptorChars_append_inj h.type h'.type hend
  cases f
  cases f'
  cases String.toList_inj.1 hname
  cases htype
  rfl

/-! ## Spelled members -/

/-- However its types are spelled, the descriptor of a method is made of theirs. -/
theorem Descriptor.toList_ofMethod_of_spells {ts : List JvmType} {t : JvmType} {ps : List String}
    {r : String} (h : List.Forall₂ JvmType.Spells (t :: ts) (r :: ps)) :
    (ofMethod ps r).toList =
      '(' :: (ts.flatMap JvmType.descriptorChars ++ ')' :: t.descriptorChars) := by
  obtain ⟨hresult, hparameters⟩ := List.forall₂_cons.1 h
  have hspelled : (TypedMethod.mk "" ts t).SpelledBy ⟨"", ps, r⟩ := ⟨rfl, hparameters, hresult⟩
  have hmember : ofMethod ps r = (TypedMethod.mk "" ts t).toMember.descriptor :=
    congrArg Member.descriptor hspelled.toMember_eq.symm
  rw [hmember, TypedMethod.toList_descriptor_toMember]

namespace TypedClass

variable {c : TypedClass} {r : ReflectedClass}

theorem SpelledBy.signatures_method (h : c.SpelledBy r) :
    r.signatures .method = c.methods.map fun m => m.toMember.signature .method := by
  rw [← h.signatures_eq "", ClassFile.signatures]
  simp [toClassFile, ClassFile.members]

theorem SpelledBy.signatures_field (h : c.SpelledBy r) :
    r.signatures .field = c.fields.map fun f => f.toMember.signature .field := by
  rw [← h.signatures_eq "", ClassFile.signatures]
  simp [toClassFile, ClassFile.members]

end TypedClass

/-- What is made of the elements of a list occurs once each exactly if the elements do, where
different elements are made into different things. -/
theorem nodup_map_iff_of_inj {α β : Type} {f : α → β} {l : List α}
    (h : ∀ a ∈ l, ∀ b ∈ l, f a = f b ↔ a = b) : (l.map f).Nodup ↔ l.Nodup :=
  ⟨List.Nodup.of_map f, fun hl => (List.nodup_map_iff_inj_on hl).2 fun a ha b hb => (h a ha b hb).1⟩

/-- In whatever way their types are spelled, two methods have one descriptor exactly if they have
the same types of parameters, one for one, and of the result. They have one signature exactly if
their names are the same as well, and two fields exactly if name and type are. So a class has no
signature twice unless it declares a member twice, whatever overloads it has. -/
theorem signature_eq_iff_same_member :
    (∀ (ts ts' : List JvmType) (t t' : JvmType) (ps ps' : List String) (r r' : String),
      (∀ u ∈ t :: ts, u.IsPlain) → (∀ u ∈ t' :: ts', u.IsPlain) →
      List.Forall₂ JvmType.Spells (t :: ts) (r :: ps) →
      List.Forall₂ JvmType.Spells (t' :: ts') (r' :: ps') →
      (Descriptor.ofMethod ps r = Descriptor.ofMethod ps' r' ↔ ts = ts' ∧ t = t')) ∧
    (∀ (m m' : TypedMethod) (r r' : ReflectedMethod), m.IsPlain → m'.IsPlain →
      m.SpelledBy r → m'.SpelledBy r' →
      (r.toMember.signature .method = r'.toMember.signature .method ↔ m = m')) ∧
    (∀ (f f' : TypedField) (r r' : ReflectedField), f.IsPlain → f'.IsPlain →
      f.SpelledBy r → f'.SpelledBy r' →
      (r.toMember.signature .field = r'.toMember.signature .field ↔ f = f')) ∧
    ∀ (c : TypedClass) (r : ReflectedClass), c.IsPlain → c.SpelledBy r →
      ((r.signatures .method).Nodup ↔ c.methods.Nodup) ∧
        ((r.signatures .field).Nodup ↔ c.fields.Nodup) := by
  refine ⟨?_, ?_, ?_, ?_⟩
  · intro ts ts' t t' ps ps' r r' hplain hplain' hspells hspells'
    rw [← String.toList_inj, Descriptor.toList_ofMethod_of_spells hspells,
      Descriptor.toList_ofMethod_of_spells hspells']
    constructor
    · intro h
      exact JvmType.methodChars_inj hplain hplain' (List.cons.inj h).2
    · rintro ⟨rfl, rfl⟩
      rfl
  · intro m m' r r' hplain hplain' hspelled hspelled'
    rw [← hspelled.toMember_eq, ← hspelled'.toMember_eq]
    exact TypedMethod.signature_inj hplain hplain'
  · intro f f' r r' hplain hplain' hspelled hspelled'
    rw [← hspelled.toMember_eq, ← hspelled'.toMember_eq]
    exact TypedField.signature_inj hplain hplain'
  · intro c r hplain hspelled
    rw [hspelled.signatures_method, hspelled.signatures_field]
    constructor
    · refine nodup_map_iff_of_inj fun m hm m' hm' => ?_
      exact TypedMethod.signature_inj (hplain.methods m hm) (hplain.methods m' hm')
    · refine nodup_map_iff_of_inj fun f hf f' hf' => ?_
      exact TypedField.signature_inj (hplain.fields f hf) (hplain.fields f' hf')

/-- Two overloads whose parameters are made of one class name, which has a parenthesis in it, and
two fields of one name. -/
theorem signature_eq_iff_same_member_of_overloads :
    let odd : JvmType := .reference "I)L"
    let void : JvmType := .primitive .void
    let one : TypedMethod := ⟨"put", [.array odd], void⟩
    let two : TypedMethod := ⟨"put", [odd, odd], void⟩
    let ints : TypedField := ⟨"f", .array (.primitive .int)⟩
    let int : TypedField := ⟨"f", .primitive .int⟩
    let r : ReflectedClass := ⟨"p.Q",
      [⟨"put", [" I)L []"], "void"⟩, ⟨"put", ["I)L", "I)L"], "void "⟩], [⟨"f", "[I"⟩, ⟨"f", "int"⟩]⟩
    (TypedClass.mk [one, two] [ints, int]).IsPlain ∧
      (TypedClass.mk [one, two] [ints, int]).SpelledBy r ∧
      (r.signatures .method).Nodup ∧ (r.signatures .field).Nodup ∧
      Descriptor.ofMethod [" I)L []"] "void" ≠ Descriptor.ofMethod ["I)L", "I)L"] "void " ∧
      (ReflectedMethod.mk "put" [" I)L []"] "void").toMember.signature .method ≠
        (ReflectedMethod.mk "put" ["I)L", "I)L"] "void ").toMember.signature .method ∧
      (ReflectedField.mk "f" "[I").toMember.signature .field ≠
        (ReflectedField.mk "f" "int").toMember.signature .field := by
  intro odd void one two ints int r
  have hword : ClassName.IsWord "I)L" :=
    ⟨by decide, by decide, by decide, by decide, fun p => by cases p <;> decide⟩
  have hname : ClassName.IsPlain "I)L" := ⟨by decide, by decide⟩
  have hblank : ∀ c ∈ [' '], Text.isBlank c = true := List.forall_mem_singleton.2 (by decide)
  have hnone : ∀ c ∈ ([] : List Char), Text.isBlank c = true := List.forall_mem_nil _
  have hodd : odd.Spells "I)L" := .source (.name hword) hnone hnone rfl
  have hodds : (JvmType.array odd).Spells " I)L []" :=
    .source (.brackets (.name hword) hblank) hblank hnone rfl
  have hvoid : void.Spells "void" := .source (.keyword .void) hnone hnone rfl
  have hpadded : void.Spells "void " := .source (.keyword .void) hnone hblank rfl
  have hone : one.SpelledBy ⟨"put", [" I)L []"], "void"⟩ := ⟨rfl, .cons hodds .nil, hvoid⟩
  have htwo : two.SpelledBy ⟨"put", ["I)L", "I)L"], "void "⟩ :=
    ⟨rfl, .cons hodd (.cons hodd .nil), hpadded⟩
  have hints : ints.SpelledBy ⟨"f", "[I"⟩ := ⟨rfl, .binary hnone hnone rfl⟩
  have hint : int.SpelledBy ⟨"f", "int"⟩ := ⟨rfl, .source (.keyword .int) hnone hnone rfl⟩
  have hplainOne : one.IsPlain := ⟨by decide, List.forall_mem_singleton.2 hname, trivial⟩
  have hplainTwo : two.IsPlain :=
    ⟨by decide, List.forall_mem_cons.2 ⟨hname, List.forall_mem_singleton.2 hname⟩, trivial⟩
  have hplainInts : ints.IsPlain := ⟨by decide, trivial⟩
  have hplainInt : int.IsPlain := ⟨by decide, trivial⟩
  have hclass : (TypedClass.mk [one, two] [ints, int]).IsPlain :=
    ⟨List.forall_mem_cons.2 ⟨hplainOne, List.forall_mem_singleton.2 hplainTwo⟩,
      List.forall_mem_cons.2 ⟨hplainInts, List.forall_mem_singleton.2 hplainInt⟩⟩
  have hspelled : (TypedClass.mk [one, two] [ints, int]).SpelledBy r :=
    ⟨.cons hone (.cons htwo .nil), .cons hints (.cons hint .nil)⟩
  obtain ⟨hdescriptors, hmethods, hfields, hclasses⟩ := signature_eq_iff_same_member
  obtain ⟨hnodup, hnodup'⟩ := hclasses _ _ hclass hspelled
  have hdifferent : one ≠ two := by simp [one, two]
  have hdifferent' : ints ≠ int := by simp [ints, int]
  refine ⟨hclass, hspelled, hnodup.2 (by simp [hdifferent]), hnodup'.2 (by simp [hdifferent']),
    ?_, ?_, ?_⟩
  · intro h
    have hsame := (hdescriptors [.array odd] [odd, odd] void void _ _ _ _
      (List.forall_mem_cons.2 ⟨trivial, hplainOne.parameters⟩)
      (List.forall_mem_cons.2 ⟨trivial, hplainTwo.parameters⟩)
      (.cons hvoid hone.parameters) (.cons hpadded htwo.parameters)).1 h
    exact absurd hsame.1 (by simp)
  · exact fun h => hdifferent ((hmethods _ _ _ _ hplainOne hplainTwo hone htwo).1 h)
  · exact fun h => hdifferent' ((hfields _ _ _ _ hplainInts hplainInt hints hint).1 h)

end JvmCompletion
