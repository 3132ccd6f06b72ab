/-
The bytes of a text.

* `encode_lt_encode_iff`: texts and their bytes are in the same order;
* `exists_split_of_drop_encode`: where a byte below 0x80 stands, a character of that number
  begins, and it has no other byte;
* `exists_append_of_drop_encode`: so where the bytes of a text of such characters stand, the
  text stands;
* `count_newline_encode`: and there are as many newlines among the bytes as in the text.
-/
import Mathlib.Tactic.SplitIfs
import ConfigTemplate.Text.Utf8

namespace ConfigTemplate

namespace Utf8

theorem encode_cons (c : Char) (s : Text) :
    encode (c :: s) = String.utf8EncodeChar c ++ encode s :=
  rfl

theorem toNat_val_lt (c : Char) : c.val.toNat < 0x110000 := by
  rcases c.valid with h | ⟨-, h⟩
  · exact Nat.lt_trans h (by decide)
  · exact h

/-! ### Order -/

/-- The bytes of two characters differ before either ends, and come in the order of the
characters. -/
theorem utf8EncodeChar_append_lt {c d : Char} (h : c < d) (bs ds : Bytes) :
    String.utf8EncodeChar c ++ bs < String.utf8EncodeChar d ++ ds := by
  have hc := toNat_val_lt c
  have hd := toNat_val_lt d
  have hval : c.val.toNat < d.val.toNat := h
  unfold String.utf8EncodeChar
  dsimp only
  generalize c.val.toNat = v at *
  generalize d.val.toNat = w at *
  -- A case for each number of bytes of either character.
  split_ifs <;> simp (disch := omega) only [List.cons_append, List.nil_append,
    List.cons_lt_cons_iff, UInt8.lt_iff_toNat_lt, ← UInt8.toNat_inj, UInt8.toNat_ofNat',
    Nat.mod_eq_of_lt] <;> omega

theorem encode_lt_encode {s t : Text} (h : s < t) : encode s < encode t := by
  induction h with
  | @nil c t =>
    have hne : encode (c :: t) ≠ encode [] := fun heq => List.cons_ne_nil c t (encode_inj.mp heq)
    obtain ⟨b, bs, hbs⟩ := List.exists_cons_of_ne_nil hne
    rw [hbs]
    exact List.nil_lt_cons b bs
  | rel hcd => exact utf8EncodeChar_append_lt hcd _ _
  | cons _ ih => exact List.append_left_lt ih

/-- **Texts come in the order of their bytes.** -/
theorem encode_lt_encode_iff {s t : Text} : encode s < encode t ↔ s < t := by
  refine ⟨fun h => ?_, encode_lt_encode⟩
  refine Decidable.byContradiction fun hst => ?_
  by_cases hts : t < s
  · exact List.lt_asymm h (encode_lt_encode hts)
  · obtain rfl : s = t := List.le_antisymm hts hst
    exact List.lt_irrefl _ h

/-! ### Bytes below 0x80 -/

theorem encode_cons_of_lt {c : Char} (h : c.toNat < 0x80) (s : Text) :
    encode (c :: s) = UInt8.ofNat c.toNat :: encode s := by
  have hle : c.val.toNat ≤ 0x7F := Nat.le_of_lt_succ h
  rw [encode_cons, String.utf8EncodeChar, if_pos hle]
  rfl

theorem le_of_mem_utf8EncodeChar {c : Char} (h : 0x80 ≤ c.toNat) {b : UInt8}
    (hb : b ∈ String.utf8EncodeChar c) : 0x80 ≤ b := by
  have hgt : ¬ c.val.toNat ≤ 0x7F := Nat.not_le_of_lt h
  rw [String.utf8EncodeChar, if_neg hgt] at hb
  rw [UInt8.le_iff_toNat_le]
  split_ifs at hb <;> simp only [List.mem_cons, List.not_mem_nil, or_false] at hb <;>
    rcases hb with rfl | rfl | rfl | rfl <;> simp <;> omega

/-- **Where a byte below 0x80 stands, a character of that number begins**, and it has no other
byte. -/
theorem exists_split_of_drop_encode {s : Text} {i : Nat} {b : UInt8} {bs : Bytes}
    (h : (encode s).drop i = b :: bs) (hb : b < 0x80) :
    ∃ (u : Text) (c : Char) (v : Text),
      s = u ++ c :: v ∧ i = u.byteLength ∧ c.toNat = b.toNat ∧ encode v = bs := by
  induction s generalizing i with
  | nil => simp at h
  | cons c s ih =>
    rw [encode_cons] at h
    by_cases hi : c.utf8Size ≤ i
    · rw [List.drop_append, List.drop_eq_nil_of_le (by simpa using hi), List.nil_append,
        String.length_utf8EncodeChar] at h
      obtain ⟨u, d, v, rfl, hu, hd, hv⟩ := ih h
      exact ⟨c :: u, d, v, rfl, by rw [Text.byteLength_cons]; omega, hd, hv⟩
    · have hmem : b ∈ String.utf8EncodeChar c := by
        have hlen : i < (String.utf8EncodeChar c).length := by simpa using hi
        rw [List.drop_append_of_le_length (by omega), List.drop_eq_getElem_cons hlen,
          List.cons_append, List.cons.injEq] at h
        exact h.1 ▸ List.getElem_mem hlen
      -- A character with such a byte has no other.
      have hc : c.toNat < 0x80 := Nat.lt_of_not_le fun hc =>
        UInt8.not_le.mpr hb (le_of_mem_utf8EncodeChar hc hmem)
      have hsize : c.utf8Size = 1 := Char.utf8Size_eq_one_iff.mpr (Nat.le_of_lt_succ hc)
      obtain rfl : i = 0 := by omega
      rw [← encode_cons, encode_cons_of_lt hc, List.drop_zero, List.cons.injEq] at h
      obtain ⟨rfl, rfl⟩ := h
      refine ⟨[], c, s, rfl, rfl, ?_, rfl⟩
      rw [UInt8.toNat_ofNat', Nat.mod_eq_of_lt (by omega)]

/-- **Where the bytes of a text below 0x80 stand, the text stands.** -/
theorem exists_append_of_drop_encode {s a : Text} {i : Nat} {b : UInt8} {bs : Bytes}
    (ha : ∀ c ∈ a, c.toNat < 0x80) (h : (encode s).drop i = encode a ++ b :: bs)
    (hb : b < 0x80) :
    ∃ (u : Text) (c : Char) (v : Text),
      s = u ++ (a ++ c :: v) ∧ i = u.byteLength ∧ c.toNat = b.toNat ∧ encode v = bs := by
  induction a generalizing s i with
  | nil => exact exists_split_of_drop_encode h hb
  | cons d a ih =>
    obtain ⟨hd, hrest⟩ := List.forall_mem_cons.mp ha
    rw [encode_cons_of_lt hd, List.cons_append] at h
    have hlt : UInt8.ofNat d.toNat < 0x80 := by
      rw [UInt8.lt_iff_toNat_lt, UInt8.toNat_ofNat', Nat.mod_eq_of_lt (by omega)]
      exact hd
    obtain ⟨u, e, v, rfl, hi, he, hv⟩ := exists_split_of_drop_encode h hlt
    rw [UInt8.toNat_ofNat', Nat.mod_eq_of_lt (by omega)] at he
    obtain rfl : e = d := Char.toNat_inj.mp he
    obtain ⟨w, c, x, rfl, hw, hc, hx⟩ := ih (i := 0) hrest (by rw [List.drop_zero, hv])
    -- Nothing stands between a character and the next byte.
    obtain rfl : w = [] := by
      cases w with
      | nil => rfl
      | cons y w =>
        have hsize := y.utf8Size_pos
        rw [Text.byteLength_cons] at hw
        omega
    exact ⟨u, c, x, rfl, hi, hc, hx⟩

theorem count_newline_encode (s : Text) : (encode s).count 10 = s.newlines := by
  induction s with
  | nil => rfl
  | cons c s ih =>
    rw [Text.newlines, List.count_cons, ← Text.newlines, ← ih]
    by_cases hc : c.toNat < 0x80
    · have hiff : UInt8.ofNat c.toNat = 10 ↔ c = '\n' := by
        rw [← UInt8.toNat_inj, UInt8.toNat_ofNat', Nat.mod_eq_of_lt (by omega), ← Char.toNat_inj]
        rfl
      simp only [encode_cons_of_lt hc, List.count_cons, beq_iff_eq, hiff]
    · have hnone : (String.utf8EncodeChar c).count 10 = 0 := by
        rw [List.count_eq_zero]
        intro hmem
        exact absurd (le_of_mem_utf8EncodeChar (Nat.le_of_not_lt hc) hmem) (by decide)
      have hne : c ≠ '\n' := by
        rintro rfl
        exact hc (by decide)
      rw [encode_cons, List.count_append, hnone]
      simp [hne]

end Utf8

end ConfigTemplate
