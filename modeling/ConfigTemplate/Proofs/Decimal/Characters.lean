/-
The characters that numbers are written with.

* `Number.isNumeralChar_of_mem_text`: there are only digits, signs, points and the letter of an
  exponent in the text of a number;
* `Number.exists_first_of_text`: it begins with a minus sign or a digit.
-/
import ConfigTemplate.Number

namespace ConfigTemplate

namespace Decimal

/-- Whether a character is one of those that numbers are written with. -/
def isNumeralChar (c : Char) : Bool :=
  c.isDigit || ['-', '+', '.', 'e'].contains c

theorem isNumeralChar_of_mem_natText {n : Nat} {c : Char} (h : c ∈ natText n) :
    isNumeralChar c = true := by
  rw [isNumeralChar, isDigit_of_mem_natText h, Bool.true_or]

theorem isNumeralChar_of_mem_zeros {n : Nat} {c : Char} (h : c ∈ zeros n) :
    isNumeralChar c = true := by
  rw [(List.mem_replicate.mp h).2]
  rfl

theorem isNumeralChar_of_mem_pointed {ds : Text} (h : ∀ c ∈ ds, isNumeralChar c = true)
    {n : Nat} {c : Char} (hc : c ∈ pointed ds n) : isNumeralChar c = true := by
  rw [pointed, List.mem_append, List.mem_cons] at hc
  rcases hc with hc | rfl | hc
  · exact h c (List.mem_of_mem_take hc)
  · rfl
  · split at hc
    · rw [List.mem_singleton.mp hc]
      rfl
    · exact h c (List.mem_of_mem_drop hc)

theorem isNumeralChar_of_mem_write {layout : Layout}
    (hplus : ∀ c ∈ layout.plus, isNumeralChar c = true) {d : Scaled} {c : Char}
    (hc : c ∈ layout.write d) : isNumeralChar c = true := by
  have hdigits : ∀ c ∈ natText d.digits, isNumeralChar c = true := fun _ hc =>
    isNumeralChar_of_mem_natText hc
  unfold Layout.write at hc
  dsimp only at hc
  split at hc
  · split at hc
    · simp only [List.cons_append, List.mem_cons, List.mem_append] at hc
      rcases hc with rfl | rfl | hc | hc
      · rfl
      · rfl
      · exact isNumeralChar_of_mem_zeros hc
      · exact hdigits c hc
    · refine isNumeralChar_of_mem_pointed (fun c hc => ?_) hc
      rcases List.mem_append.mp hc with hc | hc
      · exact hdigits c hc
      · exact isNumeralChar_of_mem_zeros hc
  · simp only [List.mem_append, List.mem_cons] at hc
    rcases hc with ((hc | hc) | rfl | hc) | hc
    · exact hdigits c (List.mem_of_mem_take hc)
    · split at hc
      · simp at hc
      · rcases List.mem_cons.mp hc with rfl | hc
        · rfl
        · exact hdigits c (List.mem_of_mem_drop hc)
    · rfl
    · split at hc
      · rw [List.mem_singleton.mp hc]
        rfl
      · exact hplus c hc
    · exact isNumeralChar_of_mem_natText hc

/-- A number is written with a digit first. -/
theorem exists_digit_of_write (layout : Layout) (d : Scaled) :
    ∃ c s, layout.write d = c :: s ∧ c.isDigit = true := by
  have hdigits : ∀ c ∈ natText d.digits, c.isDigit = true := fun _ hc =>
    isDigit_of_mem_natText hc
  unfold Layout.write
  dsimp only
  cases hds : natText d.digits with
  | nil => exact absurd hds (natText_ne_nil _)
  | cons c s =>
    rw [hds] at hdigits
    have hc := hdigits c List.mem_cons_self
    split
    · split
      · exact ⟨'0', _, rfl, rfl⟩
      · exact ⟨c, _, rfl, hc⟩
    · exact ⟨c, _, rfl, hc⟩

end Decimal

namespace Number

theorem isNumeralChar_of_mem_text {n : Number} {c : Char} (hc : c ∈ n.text) :
    Decimal.isNumeralChar c = true := by
  cases n with
  | int n _ =>
    cases n with
    | ofNat n => exact Decimal.isNumeralChar_of_mem_natText hc
    | negSucc n =>
      rcases List.mem_cons.mp hc with rfl | hc
      · rfl
      · exact Decimal.isNumeralChar_of_mem_natText hc
  | float x =>
    rw [text, Decimal.Layout.writeBinary64, List.mem_append] at hc
    rcases hc with hc | hc
    · split at hc
      · rw [List.mem_singleton.mp hc]
        rfl
      · simp at hc
    · split at hc
      · simp only [List.mem_cons, List.not_mem_nil, or_false] at hc
        rcases hc with rfl | rfl | rfl <;> rfl
      · refine Decimal.isNumeralChar_of_mem_write (fun c hc => ?_) hc
        rw [List.mem_singleton.mp hc]
        rfl

/-- **A number begins with a minus sign or a digit.** -/
theorem exists_first_of_text (n : Number) :
    ∃ c s, n.text = c :: s ∧ (c = '-' ∨ c.isDigit = true) := by
  cases n with
  | int n _ =>
    cases n with
    | ofNat n =>
      obtain ⟨c, s, hn⟩ := List.exists_cons_of_ne_nil (Decimal.natText_ne_nil n)
      exact ⟨c, s, hn, .inr (Decimal.isDigit_of_mem_natText (hn ▸ List.mem_cons_self))⟩
    | negSucc n => exact ⟨'-', _, rfl, .inl rfl⟩
  | float x =>
    rw [text, Decimal.Layout.writeBinary64]
    split
    · exact ⟨'-', _, rfl, .inl rfl⟩
    · split
      · exact ⟨'0', _, rfl, .inr rfl⟩
      · obtain ⟨c, s, hwrite, hc⟩ := Decimal.exists_digit_of_write .json x.shortest
        exact ⟨c, s, hwrite, .inr hc⟩

end Number

end ConfigTemplate
