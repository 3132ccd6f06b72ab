/-
A text by byte positions.

* `slice?_eq_some_iff`: the text between two positions is taken exactly if it stands there;
* `isSome_slice?_iff`: so a slice is taken exactly if its bounds are in order and in the text,
  and neither of them is inside a character;
* `asciiAt_eq_some_iff`: a byte that is a character by itself stands where that character
  begins, and no byte inside another is one.
-/
import ConfigTemplate.Proofs.Text.Encoding

namespace ConfigTemplate

namespace Text

/-! ### Slices -/

/-- The text before a position and the text behind it, if a character begins or the text ends
there. -/
def splitAt? : (s : Text) → (pos : Nat) → Option (Text × Text)
  | s, 0 => some ([], s)
  | [], _ + 1 => none
  | c :: s, n + 1 =>
    if c.utf8Size ≤ n + 1 then
      (splitAt? s (n + 1 - c.utf8Size)).map fun (before, behind) => (c :: before, behind)
    else none

/-- The text from one position to another. -/
def slice? (s : Text) (start stop : Nat) : Option Text := do
  let (before, _) ← s.splitAt? stop
  let (_, t) ← before.splitAt? start
  return t

theorem byteLength_eq_zero_iff {s : Text} : s.byteLength = 0 ↔ s = [] := by
  cases s with
  | nil => simp
  | cons c s =>
    have hsize := c.utf8Size_pos
    simp only [byteLength_cons, reduceCtorEq, iff_false]
    omega

theorem splitAt?_append (u v : Text) : (u ++ v).splitAt? u.byteLength = some (u, v) := by
  induction u with
  | nil => simp [splitAt?]
  | cons c u ih =>
    obtain ⟨n, hn⟩ : ∃ n, byteLength (c :: u) = n + 1 :=
      Nat.exists_eq_add_one.mpr (by have := c.utf8Size_pos; simp; omega)
    have hrest : n + 1 - c.utf8Size = byteLength u := by
      rw [← hn, byteLength_cons, Nat.add_sub_cancel_left]
    have hle : c.utf8Size ≤ n + 1 := by
      rw [← hn, byteLength_cons]
      exact Nat.le_add_right _ _
    rw [hn, List.cons_append, splitAt?, if_pos hle, hrest, ih]
    rfl

theorem eq_of_splitAt? {s u v : Text} {n : Nat} (h : s.splitAt? n = some (u, v)) :
    s = u ++ v ∧ n = u.byteLength := by
  fun_induction splitAt? s n generalizing u v with
  | case1 s =>
    obtain ⟨rfl, rfl⟩ := Prod.mk.inj (Option.some.inj h)
    exact ⟨rfl, rfl⟩
  | case2 => cases h
  | case3 c s n hle ih =>
    obtain ⟨⟨u', v'⟩, hsplit, heq⟩ := Option.map_eq_some_iff.mp h
    obtain ⟨rfl, rfl⟩ := Prod.mk.inj heq
    obtain ⟨rfl, hn⟩ := ih hsplit
    refine ⟨rfl, ?_⟩
    rw [byteLength_cons, ← hn]
    omega
  | case4 => cases h

/-- **A slice is taken exactly if it stands between the two positions.** -/
theorem slice?_eq_some_iff {s t : Text} {start stop : Nat} :
    s.slice? start stop = some t ↔
      ∃ u v, s = u ++ t ++ v ∧ start = u.byteLength ∧ stop = (u ++ t).byteLength := by
  constructor
  · intro h
    obtain ⟨⟨front, v⟩, hstop, h⟩ := Option.bind_eq_some_iff.mp h
    obtain ⟨⟨u, t'⟩, hstart, h⟩ := Option.bind_eq_some_iff.mp h
    obtain rfl : t' = t := Option.some.inj h
    obtain ⟨rfl, rfl⟩ := eq_of_splitAt? hstop
    obtain ⟨rfl, rfl⟩ := eq_of_splitAt? hstart
    exact ⟨u, v, rfl, rfl, rfl⟩
  · rintro ⟨u, v, rfl, rfl, rfl⟩
    rw [slice?, splitAt?_append]
    simp [splitAt?_append]

/-- No byte inside a character. -/
example : slice? ['\u00e9', 'a'] 1 3 = none := by decide

/-! ### Boundaries -/

/-- Whether a character begins at a position or the text ends there: the byte there does not
continue a character. -/
def isBoundary (s : Text) (pos : Nat) : Bool :=
  match (Utf8.encode s)[pos]? with
  | some b => b < 0x80 || 0xC0 ≤ b
  | none => pos = s.byteLength

/-- The first byte of a character, and those that continue it. -/
theorem exists_utf8EncodeChar (c : Char) :
    ∃ b bs, String.utf8EncodeChar c = b :: bs ∧ (b < 0x80 ∨ 0xC0 ≤ b) ∧
      ∀ x ∈ bs, 0x80 ≤ x ∧ x < 0xC0 := by
  have hc := Utf8.toNat_val_lt c
  unfold String.utf8EncodeChar
  dsimp only
  generalize c.val.toNat = n at hc ⊢
  split_ifs <;> refine ⟨_, _, rfl, ?_, ?_⟩ <;>
    simp only [UInt8.lt_iff_toNat_lt, UInt8.le_iff_toNat_le, List.mem_cons, List.not_mem_nil,
      or_false, forall_eq_or_imp, forall_eq, false_imp_iff, implies_true, UInt8.toNat_ofNat'] <;>
    simp <;> omega

theorem isBoundary_append (u v : Text) : (u ++ v).isBoundary u.byteLength = true := by
  rw [isBoundary, Utf8.encode_append, ← Utf8.length_encode,
    List.getElem?_append_right (Nat.le_refl _), Nat.sub_self]
  cases v with
  | nil => simp
  | cons c v =>
    obtain ⟨b, bs, hbytes, hb, -⟩ := exists_utf8EncodeChar c
    simp [Utf8.encode_cons, hbytes, hb]

/-- **No character is cut at a boundary.** -/
theorem isBoundary_iff {s : Text} {pos : Nat} :
    s.isBoundary pos = true ↔ ∃ u v, s = u ++ v ∧ pos = u.byteLength := by
  refine ⟨fun h => ?_, ?_⟩
  · induction s generalizing pos with
    | nil => exact ⟨[], [], rfl, of_decide_eq_true h⟩
    | cons c s ih =>
      obtain ⟨b, bs, hbytes, -, hbs⟩ := exists_utf8EncodeChar c
      have hlength : (String.utf8EncodeChar c).length = c.utf8Size := String.length_utf8EncodeChar c
      rcases Nat.lt_or_ge pos c.utf8Size with hlt | hge
      · rcases pos with _ | n
        · exact ⟨[], c :: s, rfl, rfl⟩
        · -- The byte there continues the character.
          have hn : n < bs.length := by
            rw [hbytes, List.length_cons] at hlength
            omega
          have hget : (Utf8.encode (c :: s))[n + 1]? = some bs[n] := by
            rw [Utf8.encode_cons, hbytes, List.cons_append, List.getElem?_cons_succ,
              List.getElem?_append_left hn, List.getElem?_eq_getElem hn]
          obtain ⟨hlo, hhi⟩ := hbs bs[n] (List.getElem_mem hn)
          unfold isBoundary at h
          simp [hget, UInt8.not_lt.mpr hlo, UInt8.not_le.mpr hhi] at h
      · have hrest : isBoundary s (pos - c.utf8Size) = true := by
          have hget : (Utf8.encode (c :: s))[pos]? = (Utf8.encode s)[pos - c.utf8Size]? := by
            rw [Utf8.encode_cons, List.getElem?_append_right (by omega), hlength]
          unfold isBoundary at h ⊢
          rw [hget] at h
          rcases hbyte : (Utf8.encode s)[pos - c.utf8Size]? with _ | b
          · rw [hbyte] at h
            have hpos : pos = byteLength (c :: s) := of_decide_eq_true h
            rw [byteLength_cons] at hpos
            exact decide_eq_true (by omega)
          · simpa only [hbyte] using h
        obtain ⟨u, v, rfl, hu⟩ := ih hrest
        exact ⟨c :: u, v, rfl, by rw [byteLength_cons]; omega⟩
  · rintro ⟨u, v, rfl, rfl⟩
    exact isBoundary_append u v

/-- **A slice is taken exactly if its bounds are in order, in the text and boundaries.** -/
theorem isSome_slice?_iff {s : Text} {start stop : Nat} :
    (s.slice? start stop).isSome = true ↔
      start ≤ stop ∧ stop ≤ s.byteLength ∧ s.isBoundary start = true ∧
        s.isBoundary stop = true := by
  rw [Option.isSome_iff_exists]
  constructor
  · rintro ⟨t, h⟩
    obtain ⟨u, v, rfl, rfl, rfl⟩ := slice?_eq_some_iff.mp h
    refine ⟨?_, ?_, ?_, isBoundary_append (u ++ t) v⟩
    · rw [byteLength_append]
      omega
    · rw [byteLength_append (u ++ t)]
      omega
    · rw [List.append_assoc]
      exact isBoundary_append u (t ++ v)
  · rintro ⟨hle, -, hstart, hstop⟩
    obtain ⟨u, v, rfl, rfl⟩ := isBoundary_iff.mp hstart
    obtain ⟨x, y, hxy, rfl⟩ := isBoundary_iff.mp hstop
    rcases List.append_eq_append_iff.mp hxy with ⟨t, rfl, rfl⟩ | ⟨t, rfl, rfl⟩
    · exact ⟨t, slice?_eq_some_iff.mpr ⟨u, y, (List.append_assoc u t y).symm, rfl, rfl⟩⟩
    · -- The positions are the same.
      obtain rfl : t = [] := by
        rw [← byteLength_eq_zero_iff]
        rw [byteLength_append] at hle
        omega
      refine ⟨[], slice?_eq_some_iff.mpr ⟨x, v, by simp, by simp, by simp⟩⟩

/-! ### Bytes -/

/-- The character that the byte at a position is by itself. -/
def asciiAt (s : Text) (pos : Nat) : Option Char :=
  (Utf8.encode s)[pos]?.bind fun b => if b < 0x80 then some (Char.ofNat b.toNat) else none

theorem asciiAt_eq_some_iff {s : Text} {pos : Nat} {c : Char} :
    s.asciiAt pos = some c ↔
      c.toNat < 0x80 ∧ ∃ u v, s = u ++ c :: v ∧ pos = u.byteLength := by
  constructor
  · intro h
    obtain ⟨b, hb, hc⟩ := Option.bind_eq_some_iff.mp h
    obtain ⟨hlen, hget⟩ := List.getElem?_eq_some_iff.mp hb
    split at hc
    · next hlt =>
      have hdrop := List.drop_eq_getElem_cons hlen
      rw [hget] at hdrop
      obtain ⟨u, d, v, rfl, hpos, hd, -⟩ := Utf8.exists_split_of_drop_encode hdrop hlt
      obtain rfl : d = c := by rw [← Option.some.inj hc, ← hd, Char.ofNat_toNat]
      exact ⟨hd ▸ hlt, u, v, rfl, hpos⟩
    · cases hc
  · rintro ⟨hc, u, v, rfl, rfl⟩
    have hbyte : (UInt8.ofNat c.toNat).toNat = c.toNat := by
      rw [UInt8.toNat_ofNat', Nat.mod_eq_of_lt (by omega)]
    have hlt : UInt8.ofNat c.toNat < 0x80 := by
      rw [UInt8.lt_iff_toNat_lt, hbyte]
      exact hc
    rw [asciiAt, Utf8.encode_append, Utf8.encode_cons_of_lt hc, ← Utf8.length_encode,
      List.getElem?_append_right (Nat.le_refl _), Nat.sub_self, List.getElem?_cons_zero,
      Option.bind_some, if_pos hlt, hbyte, Char.ofNat_toNat]

/-- **The byte at the end of a text tells the first character behind it**, if that is in
ASCII. -/
theorem asciiAt_append_iff {u v : Text} {c : Char} :
    (u ++ v).asciiAt u.byteLength = some c ↔ c.toNat < 0x80 ∧ ∃ w, v = c :: w := by
  rw [asciiAt_eq_some_iff]
  refine and_congr_right fun _ => ⟨?_, ?_⟩
  · rintro ⟨u', w, hs, hpos⟩
    have hsplit := splitAt?_append u v
    rw [hs, hpos, splitAt?_append, Option.some.injEq, Prod.mk.injEq] at hsplit
    exact ⟨w, hsplit.2.symm⟩
  · rintro ⟨w, rfl⟩
    exact ⟨u, w, rfl, rfl⟩

theorem lt_of_asciiAt {s : Text} {pos : Nat} {c : Char} (h : s.asciiAt pos = some c) :
    pos < s.byteLength := by
  obtain ⟨-, u, v, rfl, rfl⟩ := asciiAt_eq_some_iff.mp h
  have hsize := c.utf8Size_pos
  rw [byteLength_append, byteLength_cons]
  omega

end Text

end ConfigTemplate
