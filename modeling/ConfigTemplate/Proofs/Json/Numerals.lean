/-
Numerals of JSON are read wherever they stand.

`Steady` says of a reader of digits that what it leaves is the end of the text, and that it
reads alike with anything behind the text that does not carry the digits on.

* `steady_readNumber`: the reader of numerals is steady, as the readers of their parts are;
* `readNumeral_int`: an integer is read back from its text;
* `Number.isSpace_of_mem_text`: there is no white space in the text of a number.
-/
import Mathlib.Data.List.TakeWhile
import ConfigTemplate.Proofs.Decimal.Characters
import ConfigTemplate.Proofs.Json.Building

namespace ConfigTemplate

namespace Json

/-! ### Where a numeral ends -/

/-- Whether a numeral before a text does not go on into it. -/
def EndsNumeral (r : Text) : Prop :=
  ∀ c ∈ r.head?, c.isDigit = false ∧ c ≠ '.' ∧ c ≠ 'e' ∧ c ≠ 'E'

theorem endsNumeral_nil : EndsNumeral [] := by
  simp [EndsNumeral]

theorem endsNumeral_cons {c : Char} {r : Text} :
    EndsNumeral (c :: r) ↔ c.isDigit = false ∧ c ≠ '.' ∧ c ≠ 'e' ∧ c ≠ 'E' := by
  simp [EndsNumeral]

theorem EndsNumeral.ne_cons {r v : Text} {c : Char} (h : EndsNumeral r)
    (hc : c ∈ ['.', 'e', 'E']) : r ≠ c :: v := by
  rintro rfl
  simp_all [endsNumeral_cons]

theorem append_ne_cons {c : Char} {u v r : Text} (hu : ∀ v, u ≠ c :: v)
    (hr : ∀ {v}, r ≠ c :: v) : u ++ r ≠ c :: v := by
  cases u with
  | nil => exact hr
  | cons d u =>
    intro h
    exact hu u (congrArg (· :: u) (List.cons.inj h).1)

theorem takeWhile_isDigit_append {r : Text} (h : EndsNumeral r) (s : Text) :
    (s ++ r).takeWhile Char.isDigit = s.takeWhile Char.isDigit := by
  induction s with
  | nil =>
    cases r with
    | nil => rfl
    | cons c r => exact List.takeWhile_cons_of_neg (by simp [(endsNumeral_cons.mp h).1])
  | cons c s ih => rw [List.cons_append, List.takeWhile_cons, List.takeWhile_cons, ih]

theorem dropWhile_isDigit_append {r : Text} (h : EndsNumeral r) (s : Text) :
    (s ++ r).dropWhile Char.isDigit = s.dropWhile Char.isDigit ++ r := by
  induction s with
  | nil =>
    cases r with
    | nil => rfl
    | cons c r => exact List.dropWhile_cons_of_neg (by simp [(endsNumeral_cons.mp h).1])
  | cons c s ih =>
    rw [List.cons_append, List.dropWhile_cons, List.dropWhile_cons, ih]
    split <;> rfl

/-! ### Steady readers -/

/-- Whether a reader of digits leaves the end of the text, and reads alike with anything
behind it that does not carry the digits on. -/
def Steady {α : Type} (read : Text → Except Fault (Parsed α)) : Prop :=
  ∀ s a rest, read s = .ok (a, rest) →
    rest <:+ s ∧ ∀ r, EndsNumeral r → read (s ++ r) = .ok (a, rest ++ r)

theorem steady_readWhole : Steady readWhole := by
  intro s whole rest h
  cases s with
  | nil => simp [readWhole, refuse] at h
  | cons c s =>
    simp only [List.cons_append]
    unfold readWhole at h ⊢
    dsimp only at h ⊢
    split at h
    · next hzero =>
      simp only [if_pos hzero]
      cases s with
      | nil =>
        cases h
        refine ⟨List.nil_suffix, fun r hr => ?_⟩
        cases r with
        | nil => rfl
        | cons d r =>
          dsimp only [List.nil_append]
          rw [if_neg (by simp [(endsNumeral_cons.mp hr).1])]
      | cons d s =>
        dsimp only [List.cons_append] at h ⊢
        split at h
        · simp [refuse] at h
        · next hd =>
          cases h
          simp only [if_neg hd]
          exact ⟨List.suffix_cons c _, fun _ _ => rfl⟩
    · next hzero =>
      simp only [if_neg hzero]
      split at h
      · next hdigit =>
        cases h
        refine ⟨(List.dropWhile_suffix _).trans (List.suffix_cons c s), fun r hr => ?_⟩
        rw [if_pos hdigit, takeWhile_isDigit_append hr, dropWhile_isDigit_append hr]
      · simp [refuse] at h

theorem steady_readFraction : Steady readFraction := by
  intro s ds rest h
  unfold readFraction at h ⊢
  cases htake : s.takeWhile Char.isDigit with
  | nil =>
    rw [htake] at h
    cases hdrop : s.dropWhile Char.isDigit <;> simp [hdrop, refuse] at h
  | cons d t =>
    rw [htake] at h
    cases h
    refine ⟨List.dropWhile_suffix _, fun r hr => ?_⟩
    rw [takeWhile_isDigit_append hr, dropWhile_isDigit_append hr, htake]

theorem exponentSign_append {s : Text} (h : s ≠ []) (r : Text) :
    exponentSign (s ++ r) = ((exponentSign s).1, (exponentSign s).2 ++ r) := by
  obtain ⟨c, s, rfl⟩ := List.exists_cons_of_ne_nil h
  by_cases hplus : c = '+'
  · subst hplus; rfl
  by_cases hminus : c = '-'
  · subst hminus; rfl
  simp [exponentSign, hplus, hminus]

theorem exponentSign_suffix (s : Text) : (exponentSign s).2 <:+ s := by
  unfold exponentSign
  split
  · exact List.suffix_cons _ _
  · exact List.suffix_cons _ _
  · exact List.suffix_rfl

theorem steady_readExponent (negative : Bool) (x : Decimal.Significand) :
    Steady (readExponent negative x) := by
  intro s n rest h
  have hs : s ≠ [] := by
    rintro rfl
    simp [readExponent, exponentSign, refuse] at h
  have hsuffix := (List.dropWhile_suffix (l := (exponentSign s).2) Char.isDigit).trans
    (exponentSign_suffix s)
  unfold readExponent at h ⊢
  simp only [exponentSign_append hs]
  dsimp only at h
  cases htake : (exponentSign s).2.takeWhile Char.isDigit with
  | nil =>
    rw [htake] at h
    cases hdrop : (exponentSign s).2.dropWhile Char.isDigit <;> simp [hdrop, refuse] at h
  | cons d ds =>
    rw [htake] at h
    dsimp only at h
    -- Only the digits of the exponent decide which case it is.
    split at h
    · next hle =>
      split at h
      · next hn =>
        cases h
        refine ⟨hsuffix, fun r hr => ?_⟩
        rw [takeWhile_isDigit_append hr, dropWhile_isDigit_append hr, htake]
        dsimp only
        rw [if_pos hle, hn]
      · simp [refuseBefore] at h
    · next hle =>
      split at h
      · next hzero =>
        cases h
        refine ⟨hsuffix, fun r hr => ?_⟩
        rw [takeWhile_isDigit_append hr, dropWhile_isDigit_append hr, htake]
        dsimp only
        rw [if_neg hle, if_pos hzero]
      · simp [refuse] at h

/-- A number that is made of what is read before leaves all of the text. -/
theorem outcome_append {o : Option Number} {n : Number} {s rest : Text}
    (h : (match o with
      | some n => Except.ok (n, s)
      | none => refuseBefore .numberOutOfRange s) = .ok (n, rest)) : o = some n ∧ rest = s := by
  cases o with
  | none => simp [refuseBefore] at h
  | some m =>
    cases h
    exact ⟨rfl, rfl⟩

/-- **A numeral is read alike with anything behind it** that does not carry it on. -/
theorem steady_readNumber (negative : Bool) : Steady (readNumber negative) := by
  intro s n rest h
  unfold readNumber at h ⊢
  obtain ⟨⟨whole, t⟩, hwhole, h⟩ := Fault.bind_eq_ok_iff.mp h
  obtain ⟨hsuffix, happend⟩ := steady_readWhole s whole t hwhole
  dsimp only at h
  split at h
  · next t =>
    obtain ⟨⟨fraction, u⟩, hfraction, h⟩ := Fault.bind_eq_ok_iff.mp h
    obtain ⟨hsuffix', happend'⟩ := steady_readFraction t fraction u hfraction
    replace hsuffix := hsuffix'.trans ((List.suffix_cons '.' t).trans hsuffix)
    dsimp only at h
    split at h
    · next u =>
      obtain ⟨hrest, hread⟩ := steady_readExponent _ _ u n rest h
      refine ⟨hrest.trans ((List.suffix_cons 'e' u).trans hsuffix), fun r hr => ?_⟩
      simp only [happend r hr, happend' r hr, List.cons_append, bind, Except.bind]
      exact hread r hr
    · next u =>
      obtain ⟨hrest, hread⟩ := steady_readExponent _ _ u n rest h
      refine ⟨hrest.trans ((List.suffix_cons 'E' u).trans hsuffix), fun r hr => ?_⟩
      simp only [happend r hr, happend' r hr, List.cons_append, bind, Except.bind]
      exact hread r hr
    · next he hE =>
      obtain ⟨hn, rfl⟩ := outcome_append h
      refine ⟨hsuffix, fun r hr => ?_⟩
      simp only [happend r hr, happend' r hr, List.cons_append, bind, Except.bind]
      split
      · next heq => exact absurd heq (append_ne_cons he (hr.ne_cons (by simp)))
      · next heq => exact absurd heq (append_ne_cons hE (hr.ne_cons (by simp)))
      · rw [hn]
  · next u =>
    obtain ⟨hrest, hread⟩ := steady_readExponent _ _ u n rest h
    refine ⟨hrest.trans ((List.suffix_cons 'e' u).trans hsuffix), fun r hr => ?_⟩
    simp only [happend r hr, List.cons_append, bind, Except.bind]
    exact hread r hr
  · next u =>
    obtain ⟨hrest, hread⟩ := steady_readExponent _ _ u n rest h
    refine ⟨hrest.trans ((List.suffix_cons 'E' u).trans hsuffix), fun r hr => ?_⟩
    simp only [happend r hr, List.cons_append, bind, Except.bind]
    exact hread r hr
  · next hdot he hE =>
    obtain ⟨hn, rfl⟩ := outcome_append h
    refine ⟨hsuffix, fun r hr => ?_⟩
    simp only [happend r hr, bind, Except.bind]
    split
    · next heq => exact absurd heq (append_ne_cons hdot (hr.ne_cons (by simp)))
    · next heq => exact absurd heq (append_ne_cons he (hr.ne_cons (by simp)))
    · next heq => exact absurd heq (append_ne_cons hE (hr.ne_cons (by simp)))
    · rw [hn]

/-- Read a numeral with its sign. -/
def readNumeral : Text → Except Fault (Parsed Number)
  | '-' :: s => readNumber true s
  | s => readNumber false s

theorem readNumeral_of_ne {c : Char} (hc : c ≠ '-') (s : Text) :
    readNumeral (c :: s) = readNumber false (c :: s) := by
  unfold readNumeral
  split
  · next heq => exact absurd (List.cons.inj heq).1 hc
  · rfl

theorem steady_readNumeral : Steady readNumeral := by
  intro s n rest h
  cases s with
  | nil => simp [readNumeral, readNumber, readWhole, refuse, bind, Except.bind] at h
  | cons c s =>
    by_cases hc : c = '-'
    · subst hc
      obtain ⟨hsuffix, happend⟩ := steady_readNumber true s n rest h
      exact ⟨hsuffix.trans (List.suffix_cons _ _), happend⟩
    · rw [readNumeral_of_ne hc] at h
      obtain ⟨hsuffix, happend⟩ := steady_readNumber false (c :: s) n rest h
      refine ⟨hsuffix, fun r hr => ?_⟩
      rw [List.cons_append, readNumeral_of_ne hc]
      exact happend r hr

/-! ### Integers -/

/-- The digits of a positive number begin with another digit than zero. -/
theorem head?_natText_ne {n : Nat} (h : 0 < n) : (Decimal.natText n).head? ≠ some '0' := by
  induction n using Nat.strongRecOn with
  | ind n ih =>
    rw [Decimal.natText, Nat.toDigits_eq_if (by decide)]
    split
    · next hlt =>
      have hdigit : ∀ m < 10, 0 < m → Nat.digitChar m ≠ '0' := by decide
      simpa using hdigit n hlt h
    · rw [List.head?_append, Option.or_of_isSome (by simp [Nat.toDigits_ne_nil])]
      exact ih (n / 10) (by omega) (by omega)

theorem readWhole_natText (n : Nat) :
    readWhole (Decimal.natText n) = .ok (Decimal.natText n, []) := by
  rcases Nat.eq_zero_or_pos n with rfl | hpos
  · rfl
  have hdigits : ∀ c ∈ Decimal.natText n, c.isDigit = true := fun c hc =>
    Decimal.isDigit_of_mem_natText hc
  have hfirst := head?_natText_ne hpos
  cases hn : Decimal.natText n with
  | nil => exact absurd hn (Decimal.natText_ne_nil n)
  | cons c s =>
    rw [hn] at hdigits hfirst
    obtain ⟨hc, hs⟩ := List.forall_mem_cons.mp hdigits
    have hzero : c ≠ '0' := by simpa using hfirst
    unfold readWhole
    dsimp only
    rw [if_neg hzero, if_pos hc, List.takeWhile_eq_self_iff.mpr hs,
      List.dropWhile_eq_nil_iff.mpr hs]

theorem readNumber_natText {negative : Bool} {n : Nat} {m : Number}
    (h : Number.ofDigits? negative (Decimal.natText n) = some m) :
    readNumber negative (Decimal.natText n) = .ok (m, []) := by
  rw [readNumber, readWhole_natText]
  dsimp only [bind, Except.bind]
  rw [h]

/-- **An integer is read back from its text.** -/
theorem readNumeral_int (n : Int) (h : -0x8000000000000000 ≤ n ∧ n < 0x10000000000000000) :
    readNumeral (Number.int n h).text = .ok (.int n h, []) := by
  cases n with
  | ofNat n =>
    obtain ⟨c, s, hn⟩ := List.exists_cons_of_ne_nil (Decimal.natText_ne_nil n)
    have hminus : c ≠ '-' := by
      rintro rfl
      have hdigit : '-'.isDigit = true := Decimal.isDigit_of_mem_natText (hn ▸ List.mem_cons_self)
      exact absurd hdigit (by decide)
    show readNumeral (Decimal.natText n) = _
    rw [hn, readNumeral_of_ne hminus, ← hn]
    apply readNumber_natText
    have hn : Number.ofInt? (Int.ofNat n) = some (.int n h) := dif_pos h
    simpa [Number.ofDigits?] using Option.or_eq_some_iff.mpr (.inl hn)
  | negSucc n =>
    show readNumber true (Decimal.natText (n + 1)) = _
    apply readNumber_natText
    have hn : Number.ofInt? (-((n : Int) + 1)) = some (.int (Int.negSucc n) h) := dif_pos h
    simpa [Number.ofDigits?] using Option.or_eq_some_iff.mpr (.inl hn)

end Json

namespace Number

/-- **No number has white space in its text.** -/
theorem isSpace_of_mem_text {n : Number} {c : Char} (hc : c ∈ n.text) :
    Json.isSpace c = false := by
  have hnumeral := isNumeralChar_of_mem_text hc
  rw [Bool.eq_false_iff]
  intro hspace
  simp only [Json.isSpace, Bool.or_eq_true, decide_eq_true_eq] at hspace
  rcases hspace with ((rfl | rfl) | rfl) | rfl <;> exact absurd hnumeral (by decide)

end Number

end ConfigTemplate
