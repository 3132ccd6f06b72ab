/-
The valid stretches of bytes that are not text.

Bytes that are no text still have text in them, between the runs that are ill-formed.  Strict
decoding finds none of it, and lossy decoding all of it.

* `decode?_eq_some_iff`: bytes are text exactly if they are one stretch;
* `decodeLossy_eq_intercalate`: lossy decoding puts U+FFFD between the stretches.
-/
import ConfigTemplate.Text.Utf8

namespace ConfigTemplate

namespace Utf8

/-- The characters between the ill-formed runs.  There is always one more stretch than there
are such runs. -/
def stretchesOf : List (Option Char) → List Text
  | [] => [[]]
  | none :: us => [] :: stretchesOf us
  | some c :: us => (stretchesOf us).modifyHead (c :: ·)

/-- The texts between the ill-formed runs of bytes. -/
def stretches (bs : Bytes) : List Text :=
  stretchesOf (units bs)

theorem stretchesOf_ne_nil (us : List (Option Char)) : stretchesOf us ≠ [] := by
  induction us with
  | nil => exact List.cons_ne_nil _ _
  | cons u us ih =>
    cases u with
    | none => exact List.cons_ne_nil _ _
    | some c => simpa [stretchesOf] using ih

theorem map_getD_eq_intercalate (us : List (Option Char)) :
    us.map (·.getD '\uFFFD') = List.intercalate ['\uFFFD'] (stretchesOf us) := by
  induction us with
  | nil => rfl
  | cons u us ih =>
    obtain ⟨s, ss, hs⟩ := List.exists_cons_of_ne_nil (stretchesOf_ne_nil us)
    rw [List.map_cons, ih]
    cases u with
    | none =>
      rw [stretchesOf, hs, List.intercalate_cons_cons]
      rfl
    | some c =>
      rw [stretchesOf, hs, List.modifyHead_cons]
      cases ss <;> simp [List.intercalate]

/-- **Lossy decoding puts U+FFFD between the stretches.** -/
theorem decodeLossy_eq_intercalate (bs : Bytes) :
    decodeLossy bs = List.intercalate ['\uFFFD'] (stretches bs) :=
  map_getD_eq_intercalate (units bs)

theorem mapM_id_eq_some_iff {us : List (Option Char)} {s : Text} :
    us.mapM id = some s ↔ stretchesOf us = [s] := by
  induction us generalizing s with
  | nil => simp [stretchesOf]
  | cons u us ih =>
    rw [List.mapM_cons]
    cases u with
    | none => simp [stretchesOf, stretchesOf_ne_nil]
    | some c =>
      obtain ⟨t, ts, ht⟩ := List.exists_cons_of_ne_nil (stretchesOf_ne_nil us)
      rcases hm : us.mapM id with _ | v
      · have hts : ts ≠ [] := fun hts => by simp [(ih (s := t)).mpr (by rw [ht, hts])] at hm
        simp [stretchesOf, ht, hts]
      · rw [ih.mp hm, List.cons.injEq] at ht
        simp [stretchesOf, ih.mp hm]

/-- **Bytes are text exactly if they are one stretch.** -/
theorem decode?_eq_some_iff {bs : Bytes} {s : Text} :
    decode? bs = some s ↔ stretches bs = [s] :=
  mapM_id_eq_some_iff

end Utf8

end ConfigTemplate
