/-
What a reference to an environment variable is.

* `withPrefix_eq_some_iff`: a prefix, a name, and behind it no further character
  of names;
* `envVar?_sound`: it is what the text begins with;
* `envVar?_newline`: and nothing past the end of the line has a part in it.
-/
import Mathlib.Data.List.Basic
import ConfigTemplate.Proofs.Reference.Scanning
import ConfigTemplate.Reference.EnvVar

namespace ConfigTemplate

namespace EnvVar

theorem withPrefix_eq_some_iff {lead s : Text} {x : Lexeme} :
    withPrefix lead s = some x ↔ ∃ name rest, s = lead ++ (name ++ rest) ∧ name ≠ [] ∧
      (∀ c ∈ name, isNameChar c = true) ∧ rest.takeWhile isNameChar = [] ∧
      x = ⟨.envVar, path name, lead ++ name⟩ := by
  unfold withPrefix
  simp only [Option.bind_eq_some_iff, List.isPrefixOf?_eq_some_iff_append_eq]
  constructor
  · rintro ⟨t, rfl, h⟩
    split at h
    · simp at h
    · next hne =>
      refine ⟨t.takeWhile isNameChar, t.dropWhile isNameChar, ?_, by simpa using hne,
        List.all_eq_true.mp List.all_takeWhile, ?_, (Option.some.inj h).symm⟩
      · rw [List.takeWhile_append_dropWhile]
      · have := List.head?_dropWhile_not isNameChar t
        rcases hd : t.dropWhile isNameChar with _ | ⟨c, u⟩
        · rfl
        · rw [hd] at this
          simp_all
  · rintro ⟨name, rest, rfl, hne, hname, hrest, rfl⟩
    refine ⟨name ++ rest, rfl, ?_⟩
    rw [List.takeWhile_append_of_pos hname, hrest, List.append_nil, if_neg (by simpa using hne)]

private theorem isPrefixOf?_cut {c : Char} {lead : Text} (hlead : c ∉ lead) (s t : Text) :
    lead.isPrefixOf? (s ++ c :: t) = (lead.isPrefixOf? s).map (· ++ c :: t) := by
  induction lead generalizing s with
  | nil => rfl
  | cons d lead ih =>
    rw [List.mem_cons, not_or] at hlead
    rcases s with _ | ⟨e, s⟩
    · simp [List.isPrefixOf?, Ne.symm hlead.1]
    · by_cases hde : d = e
      · simp [List.isPrefixOf?, hde, ih hlead.2]
      · simp [List.isPrefixOf?, hde]

/-- A name ends at a character that stands in none, and so does what goes before it. -/
theorem withPrefix_cut {c : Char} (hc : isNameChar c = false) {lead : Text} (hlead : c ∉ lead)
    (s t : Text) : withPrefix lead (s ++ c :: t) = withPrefix lead s := by
  have hname : ∀ u : Text, (u ++ c :: t).takeWhile isNameChar = u.takeWhile isNameChar := by
    intro u
    induction u with
    | nil => simp [hc]
    | cons d u ih => simp [List.takeWhile_cons, ih]
  unfold withPrefix
  rw [isPrefixOf?_cut hlead, Option.bind_map]
  simp only [Function.comp_def, hname]

end EnvVar

theorem envVar?_eq_some {s : Text} {x : Lexeme} (h : envVar? s = some x) :
    ∃ lead ∈ EnvVar.prefixes, EnvVar.withPrefix lead s = some x :=
  List.exists_of_findSome?_eq_some h

/-- The search for a variable ends at a character that stands in none. -/
theorem envVar?_stopsAt {c : Char} (hc : EnvVar.isNameChar c = false)
    (hlead : ∀ lead ∈ EnvVar.prefixes, c ∉ lead) : Recogniser.StopsAt envVar? c := by
  intro s t
  unfold envVar?
  -- The first prefix that fits is the same one, so the induction is on the prefixes.
  generalize EnvVar.prefixes = leads at hlead
  induction leads with
  | nil => rfl
  | cons lead leads ih =>
    rw [List.findSome?_cons, List.findSome?_cons,
      EnvVar.withPrefix_cut hc (hlead lead List.mem_cons_self),
      ih fun l hl => hlead l (List.mem_cons_of_mem _ hl)]

theorem envVar?_newline : Recogniser.StopsAt envVar? '\n' :=
  envVar?_stopsAt (by decide) (by decide)

/-- A reference to a variable is what the text begins with, and is not empty. -/
theorem envVar?_sound : Recogniser.Sound envVar? := by
  intro s x h
  obtain ⟨lead, -, hx⟩ := envVar?_eq_some h
  obtain ⟨name, rest, rfl, hne, -, -, rfl⟩ := EnvVar.withPrefix_eq_some_iff.mp hx
  exact ⟨by simp [hne], ⟨rest, by simp⟩⟩

end ConfigTemplate
