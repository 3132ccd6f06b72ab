/-
Paths that were read from a text.

A path keeps its text as written beside the parts that it was read as.  `Path.Scanned` says how
the two go together, in the path and in each of those nested in it.

* `Reads.scanned`: every level that is read makes paths of this kind;
* `ReferenceStyle.scanned_of_mem_references`: so every reference of a text has one;
* `Path.Scanned.literal_of_not_nested`, `Path.Scanned.braces_infix`: without references it is
  plain text, and with them it still has their braces in its text.
-/
import ConfigTemplate.Proofs.Reference.Lines

namespace ConfigTemplate

/-- Whether the text of a path and its parts go together as in a path that was read, at every
level. -/
inductive Path.Scanned : Path → Prop
  | literal (s : Text) : Scanned (.literal s)
  | nested {raw : Text} {parts : List Part} (hnested : isNested ⟨raw, parts⟩ = true)
      (hbraces : ['\x7b', '\x7b'] <:+: raw) (hrefs : ∀ p, .ref p ∈ parts → Scanned p) :
      Scanned ⟨raw, parts⟩

namespace Path.Scanned

variable {p q : Path}

theorem literal_of_not_nested (h : p.Scanned) (hplain : p.isNested = false) :
    ∃ u, p = .literal u := by
  cases h with
  | literal u => exact ⟨u, rfl⟩
  | nested hnested => exact absurd hnested (by simp [hplain])

theorem braces_infix (h : p.Scanned) (hnested : p.isNested = true) :
    ['\x7b', '\x7b'] <:+: p.raw := by
  cases h with
  | literal u => cases hnested
  | nested _ hbraces => exact hbraces

theorem of_ref (h : p.Scanned) (hq : .ref q ∈ p.parts) : q.Scanned := by
  cases h with
  | literal u => simp [Path.literal] at hq
  | nested _ _ hrefs => exact hrefs q hq

end Path.Scanned

namespace Placeholder

/-- What a level keeps of the references that it has read. -/
structure Level.Scanned (l : Level) : Prop where
  braces : l.hasRef = true → ['\x7b', '\x7b'] <:+: l.path
  refs : ∀ p, .ref p ∈ l.parts → p.Scanned

theorem Level.scanned_empty : Level.empty.Scanned :=
  ⟨fun h => absurd h (by simp), by simp [empty]⟩

theorem Level.mem_allParts_iff {l : Level} {p : Path} : .ref p ∈ l.allParts ↔ .ref p ∈ l.parts := by
  unfold allParts
  split
  · rfl
  · simp

theorem Level.Scanned.push {l : Level} (h : l.Scanned) (c : Char) : (l.push c).Scanned := by
  refine ⟨fun href => ?_, ?_⟩
  · rw [hasRef_push] at href
    unfold Level.push
    split
    · exact h.braces href
    · exact (h.braces href).trans (List.prefix_append _ _).isInfix
  · unfold Level.push
    split <;> exact h.refs

theorem Level.Scanned.pushRef {l i : Level} (h : l.Scanned) {p : Path} (hp : p.Scanned) :
    (l.pushRef p i.text).Scanned := by
  refine ⟨fun _ => ⟨l.path, i.pad ++ i.path ++ ['\x7d', '\x7d'], ?_⟩, fun q hq => ?_⟩
  · simp [Level.pushRef, Level.text]
  · rcases List.mem_append.mp hq with hq | hq
    · exact h.refs q (mem_allParts_iff.mp hq)
    · rw [List.mem_singleton, Part.ref.injEq] at hq
      exact hq ▸ hp

/-- What closed braces make of a level. -/
theorem Level.Scanned.path {l : Level} (h : l.Scanned) (hl : l.WellFormed) {p : Path}
    (hp : l.path? = some p) : p.Scanned := by
  obtain ⟨hne, rfl⟩ := path?_eq_some_iff.mp hp
  cases href : l.hasRef with
  | true =>
    refine .nested ((isNested_allParts l _).trans href) ?_ fun q hq => ?_
    · refine Text.infix_trim (fun c hc => ?_) (h.braces href)
      obtain rfl : c = '\x7b' := by simpa using hc
      rfl
    · exact h.refs q (mem_allParts_iff.mp hq)
  | false =>
    obtain ⟨hparts, hpending⟩ := hl.plain href
    have hpath : l.path ≠ [] := fun h => hne (by rw [h]; rfl)
    have hall : l.allParts = [.text l.path] := by simp [allParts, hparts, hpending, hpath]
    rw [hall]
    exact .literal l.path

theorem Reads.scanned {d : Nat} {l r : Level} {s : Text} (h : Reads d l s r) (hl : l.Scanned) :
    r.Scanned := by
  induction h with
  | done => exact hl
  | char _ _ ih => exact ih (hl.push _)
  | ref _ hi hp _ ihi ih =>
    have hpath := (ihi Level.scanned_empty).path (hi.wellFormed Level.wellFormed_empty) hp
    exact ih (hl.pushRef hpath)

end Placeholder

open Placeholder in
theorem placeholder?_scanned {s : Text} {x : Lexeme} (h : placeholder? s = some x) :
    x.path.Scanned := by
  obtain ⟨_, _, _, t, r, p, _, -, ht, hp, -, -, rfl⟩ := placeholder?_cases h
  exact (ht.scanned Level.scanned_empty).path (ht.wellFormed Level.wellFormed_empty) hp

theorem envVar?_scanned {s : Text} {x : Lexeme} (h : envVar? s = some x) : x.path.Scanned := by
  obtain ⟨lead, -, hx⟩ := envVar?_eq_some h
  obtain ⟨name, rest, -, -, -, -, rfl⟩ := EnvVar.withPrefix_eq_some_iff.mp hx
  exact .literal _

/-- **The path of every reference was read from its text.** -/
theorem ReferenceStyle.scanned_of_mem_references {style : ReferenceStyle} {source : Text}
    {t : Token} (h : t ∈ style.references source) : t.path.Scanned := by
  cases style with
  | placeholders =>
    obtain ⟨s, x, m, hx, rfl⟩ := exists_of_mem_tokens_scanFrom h
    exact placeholder?_scanned hx
  | envVars =>
    obtain ⟨s, x, m, hx, rfl⟩ := exists_of_mem_tokens_scanFrom h
    exact envVar?_scanned hx

theorem ReferenceStyle.scanned_of_mem_tokens {style : ReferenceStyle} {line : Text} {n : Nat}
    {t : Token} (h : t ∈ style.tokens line n) : t.path.Scanned := by
  rw [style.tokens_eq_map_references] at h
  obtain ⟨u, hu, rfl⟩ := List.mem_map.mp h
  have hscanned : u.path.Scanned := scanned_of_mem_references hu
  exact hscanned

end ConfigTemplate
