/-
Strings of JSON are read as they are written.

* `stringFrom_escape_append`: what is written for a character is read as that character;
* `readString_quoted`: so what stands between quotes is read back, whatever its characters.
-/
import ConfigTemplate.Json.Literal

namespace ConfigTemplate

namespace Json

/-- What is read of a string, with a character before it. -/
def prepend (c : Char) (read : Except Fault (Parsed Text)) : Except Fault (Parsed Text) :=
  read.map fun p => (c :: p.1, p.2)

/-- An escape is read as its character, and so is what follows it. -/
theorem stringFrom_escaped {c : Char} {used : Nat} {s : Text}
    (h : readEscape s = .ok (c, used)) :
    stringFrom 0 ('\\' :: s) = prepend c (stringFrom used s) := by
  rw [stringFrom, if_neg (by decide), if_pos rfl, h, prepend]
  dsimp only [bind, Except.bind]
  cases stringFrom used s <;> rfl

/-- An escape of one letter. -/
theorem stringFrom_letter {c d : Char} (h : ∀ s, readEscape (d :: s) = .ok (c, 1)) (t : Text) :
    stringFrom 0 (['\\', d] ++ t) = prepend c (stringFrom 0 t) :=
  stringFrom_escaped (h t)

theorem stringFrom_plain {c : Char} (hquote : c ≠ '"') (hslash : c ≠ '\\') (h : ¬ c.toNat < 0x20)
    (s : Text) : stringFrom 0 (c :: s) = prepend c (stringFrom 0 s) := by
  rw [stringFrom, if_neg hquote, if_neg hslash, if_neg h, prepend]
  cases stringFrom 0 s <;> rfl

/-! ### Control characters -/

theorem radixValue_control : ∀ n < 0x20,
    Decimal.radixValue 16 ['0', '0', Nat.digitChar (n / 16), Nat.digitChar (n % 16)] = some n := by
  decide

theorem readHex_control {n : Nat} (h : n < 0x20) (t : Text) :
    readHex ('0' :: '0' :: Nat.digitChar (n / 16) :: Nat.digitChar (n % 16) :: t) = .ok n := by
  have hlength : ¬ Text.byteLength
      ('0' :: '0' :: Nat.digitChar (n / 16) :: Nat.digitChar (n % 16) :: t) < 4 := by
    have hsize := Char.utf8Size_pos
    have h₁ := hsize (Nat.digitChar (n / 16))
    have h₂ := hsize (Nat.digitChar (n % 16))
    simp only [Text.byteLength_cons, show '0'.utf8Size = 1 from rfl]
    omega
  have htake : List.take 4 ('0' :: '0' :: Nat.digitChar (n / 16) :: Nat.digitChar (n % 16) :: t) =
      ['0', '0', Nat.digitChar (n / 16), Nat.digitChar (n % 16)] := rfl
  rw [readHex, if_neg hlength, htake, radixValue_control n h]

/-- A control character is read by its number, which is no surrogate. -/
theorem readEscape_control {c : Char} (h : c.toNat < 0x20) (t : Text) :
    readEscape ('u' :: '0' :: '0' :: Nat.digitChar (c.toNat / 16) ::
      Nat.digitChar (c.toNat % 16) :: t) = .ok (c, 5) := by
  have hpair : readPair c.toNat t = .ok (c, 0) := by
    have htrailing : isTrailing c.toNat = false := by simp [isTrailing]; omega
    have hleading : isLeading c.toNat = false := by simp [isLeading]; omega
    unfold readPair
    rw [htrailing, hleading, if_neg Bool.false_ne_true, if_neg Bool.false_ne_true,
      Char.ofNat_toNat]
  rw [readEscape, readHex_control h]
  dsimp only [bind, Except.bind, List.drop]
  rw [hpair]
  rfl

/-! ### Whole strings -/

/-- **What is written for a character is read as that character.** -/
theorem stringFrom_escape_append (c : Char) (t : Text) :
    stringFrom 0 (escape c ++ t) = prepend c (stringFrom 0 t) := by
  unfold escape
  -- The characters with a letter of their own come first.
  split
  · next hc =>
    subst hc
    exact stringFrom_letter (fun _ => rfl) t
  next hquote =>
  split
  · next hc =>
    subst hc
    exact stringFrom_letter (fun _ => rfl) t
  next hslash =>
  split
  · next hc =>
    subst hc
    exact stringFrom_letter (fun _ => rfl) t
  split
  · next hc =>
    subst hc
    exact stringFrom_letter (fun _ => rfl) t
  split
  · next hc =>
    subst hc
    exact stringFrom_letter (fun _ => rfl) t
  split
  · next hc =>
    subst hc
    exact stringFrom_letter (fun _ => rfl) t
  split
  · next hc =>
    subst hc
    exact stringFrom_letter (fun _ => rfl) t
  split
  · next hcontrol => exact stringFrom_escaped (readEscape_control hcontrol t)
  · next hcontrol => exact stringFrom_plain hquote hslash hcontrol t

/-- **What stands between quotes is read back.** -/
theorem readString_quoted (s rest : Text) :
    readString (s.flatMap escape ++ '"' :: rest) = .ok (s, rest) := by
  rw [readString]
  induction s with
  | nil => rfl
  | cons c s ih =>
    rw [List.flatMap_cons, List.append_assoc, stringFrom_escape_append, ih]
    rfl

end Json

end ConfigTemplate
