import Mathlib.Data.String.Basic

/-!
# The order of UTF-8 encodings

Texts are compared by their code points, and encodings of texts by their bytes. `bytes_lt_iff` says
that the two orders are one: of two different characters the smaller one has the smaller byte at the
first position at which their encodings differ, and neither encoding ends before that position. The
bytes that follow therefore never decide between them.
-/

namespace JvmCompletion.Text

/-- The bytes of the UTF-8 encoding of a text. -/
def bytes (s : String) : List UInt8 := s.toByteArray.data.toList

theorem bytes_eq_flatMap (s : String) : bytes s = s.toList.flatMap String.utf8EncodeChar := by
  rw [bytes, ← String.utf8Encode_toList, List.utf8Encode, List.data_toByteArray]

/-- The two lists differ at a position that both of them have, and at the first such position the
byte of the first list is the smaller one. -/
def Diverges : List UInt8 → List UInt8 → Prop
  | x :: l, y :: m => x < y ∨ x = y ∧ Diverges l m
  | _, _ => False

/-- Whatever follows lists that diverge does not change how they compare. -/
theorem Diverges.append_lt {l m : List UInt8} (h : Diverges l m) (l' m' : List UInt8) :
    l ++ l' < m ++ m' := by
  induction l generalizing m with
  | nil => cases m <;> exact h.elim
  | cons x l ih =>
    cases m with
    | nil => exact h.elim
    | cons y m =>
      rw [List.cons_append, List.cons_append, List.cons_lt_cons_iff]
      rcases h with hxy | ⟨rfl, hlm⟩
      · exact Or.inl hxy
      · exact Or.inr ⟨rfl, ih hlm⟩

/-! ## Single characters -/

theorem ofNat_lt_ofNat {a b : Nat} (hb : b < 256) (h : a < b) : UInt8.ofNat a < UInt8.ofNat b := by
  rw [UInt8.lt_iff_toNat_lt, UInt8.toNat_ofNat', UInt8.toNat_ofNat']
  omega

theorem toNat_lt (c : Char) : c.val.toNat < 0x110000 := by
  rcases c.valid with h | h
  · have h' : c.val.toNat < 0xd800 := h
    omega
  · exact h.2

/-- Encodings of four bytes diverge at the first group of bits in which the code points differ. -/
theorem diverges_four {v w : Nat} (h : v < w) (hw : w < 0x110000) :
    Diverges
      [UInt8.ofNat (v / 262144 % 0x08 + 0xf0), UInt8.ofNat (v / 4096 % 0x40 + 0x80),
        UInt8.ofNat (v / 64 % 0x40 + 0x80), UInt8.ofNat (v % 0x40 + 0x80)]
      [UInt8.ofNat (w / 262144 % 0x08 + 0xf0), UInt8.ofNat (w / 4096 % 0x40 + 0x80),
        UInt8.ofNat (w / 64 % 0x40 + 0x80), UInt8.ofNat (w % 0x40 + 0x80)] := by
  rcases Nat.lt_or_ge (v / 262144) (w / 262144) with h3 | h3
  · exact Or.inl (ofNat_lt_ofNat (by omega) (by omega))
  have e3 : v / 262144 = w / 262144 := by omega
  refine Or.inr ⟨by rw [e3], ?_⟩
  rcases Nat.lt_or_ge (v / 4096) (w / 4096) with h2 | h2
  · exact Or.inl (ofNat_lt_ofNat (by omega) (by omega))
  have e2 : v / 4096 = w / 4096 := by omega
  refine Or.inr ⟨by rw [e2], ?_⟩
  rcases Nat.lt_or_ge (v / 64) (w / 64) with h1 | h1
  · exact Or.inl (ofNat_lt_ofNat (by omega) (by omega))
  have e1 : v / 64 = w / 64 := by omega
  exact Or.inr ⟨by rw [e1], Or.inl (ofNat_lt_ofNat (by omega) (by omega))⟩

/-- The encodings of two characters diverge the way the characters compare. -/
theorem diverges_encode {c d : Char} (h : c < d) :
    Diverges (String.utf8EncodeChar c) (String.utf8EncodeChar d) := by
  have hcd : c.val.toNat < d.val.toNat := h
  have hd := toNat_lt d
  simp only [String.utf8EncodeChar]
  generalize c.val.toNat = v at hcd ⊢
  generalize d.val.toNat = w at hcd hd ⊢
  by_cases hv : v ≤ 0xffff
  · split_ifs <;>
      simp only [Diverges, UInt8.lt_iff_toNat_lt, ← UInt8.toNat_inj, UInt8.toNat_ofNat'] <;> omega
  · rw [if_neg (by omega), if_neg (by omega), if_neg hv, if_neg (by omega), if_neg (by omega),
      if_neg (by omega)]
    exact diverges_four hcd hd

/-! ## Texts -/

theorem flatMap_encode_lt {l m : List Char} (h : l < m) :
    l.flatMap String.utf8EncodeChar < m.flatMap String.utf8EncodeChar := by
  induction h with
  | @nil d m =>
    have hne : String.utf8EncodeChar d ≠ [] := String.utf8EncodeChar_ne_nil
    cases he : String.utf8EncodeChar d with
    | nil => exact absurd he hne
    | cons x l => simp [he]
  | rel hcd => exact (diverges_encode hcd).append_lt _ _
  | cons _ ih => exact List.append_left_lt ih

/-- The order of the encodings, byte by byte, is the order of the texts. -/
theorem bytes_lt_iff {s t : String} : bytes s < bytes t ↔ s < t := by
  have mono : ∀ {a b : String}, a < b → bytes a < bytes b := fun {a b} hab => by
    rw [bytes_eq_flatMap, bytes_eq_flatMap]
    exact flatMap_encode_lt hab
  refine ⟨fun h => ?_, mono⟩
  rcases lt_trichotomy s t with hst | rfl | hts
  · exact hst
  · exact absurd h (List.lt_irrefl _)
  · exact absurd h (List.lt_asymm (mono hts))

end JvmCompletion.Text
