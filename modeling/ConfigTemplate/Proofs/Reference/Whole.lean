/-
Texts that are one reference.

* `envVars_whole`: a dollar sign, a prefix and a name are one reference to a variable;
* `placeholders_whole`: a plain path between braces and blanks is one placeholder, which
  stands for the path.
-/
import ConfigTemplate.Proofs.Reference.EnvVar
import ConfigTemplate.Proofs.Reference.Grammar

namespace ConfigTemplate

/-! ### Variables -/

theorem envVar?_whole {lead name : Text} (hlead : lead ∈ EnvVar.prefixes) (hne : name ≠ [])
    (hname : ∀ c ∈ name, EnvVar.isNameChar c = true) :
    envVar? (lead ++ name) = some ⟨.envVar, EnvVar.path name, lead ++ name⟩ := by
  have hfound : EnvVar.withPrefix lead (lead ++ name) =
      some ⟨.envVar, EnvVar.path name, lead ++ name⟩ :=
    EnvVar.withPrefix_eq_some_iff.mpr ⟨name, [], by simp, hne, hname, rfl, rfl⟩
  simp only [EnvVar.prefixes, List.mem_cons, List.not_mem_nil, or_false] at hlead
  unfold envVar? EnvVar.prefixes
  rcases hlead with rfl | rfl
  · rw [List.findSome?_cons, hfound]
  · -- The shorter prefix goes on with another character.
    have hother : EnvVar.withPrefix "$q_".toList ("$quill_".toList ++ name) = none := rfl
    rw [List.findSome?_cons, hother, List.findSome?_cons, hfound]

/-- **A variable in full is one reference**, and nothing else is read. -/
theorem envVars_whole {lead name : Text} (hlead : lead ∈ EnvVar.prefixes) (hne : name ≠ [])
    (hname : ∀ c ∈ name, EnvVar.isNameChar c = true) :
    envVars (lead ++ name) =
      .before [] ⟨.envVar, EnvVar.path name, lead ++ name, .start⟩ (.last []) := by
  have hx := envVar?_whole hlead hne hname
  exact scan_whole (envVar?_sound _ _ hx).1 hx

/-! ### Plain placeholders -/

/-- A path between braces, with a blank on either side. -/
def braced (path : Text) : Text :=
  "\x7b\x7b ".toList ++ path ++ " \x7d\x7d".toList

section

open Placeholder

variable {path : Text} (hpath : ∀ c ∈ path, isPathChar c = true)
  (hblank : ∀ c ∈ path, Text.isBlank c = false) (hne : path ≠ [])

include hpath hblank hne in
theorem form_braced : Form 0 none ([' '] ++ (path ++ [' '])) false (braced path) := by
  have hpad : Padding [' '] := by simp [Padding, isPad]
  have hmore : ∀ c ∈ path ++ [' '], isPathChar c = true := by
    intro c hc
    rcases List.mem_append.mp hc with hc | hc
    · exact hpath c hc
    · rw [List.mem_singleton.mp hc]
      rfl
  have hsome : ¬ Padding (path ++ [' ']) := by
    obtain ⟨c, s, rfl⟩ := List.exists_cons_of_ne_nil hne
    intro hp
    have hc : Text.isBlank c = true := isBlank_of_isPad (hp c (by simp))
    simp [hblank c List.mem_cons_self] at hc
  have hitems : Items 0 false (path ++ [' ']) := items_of_isPathChar hmore
  have h := Form.plain hpad hitems hsome
  simpa [braced] using h

include hpath hblank hne in
/-- **A path between braces is one placeholder**, and it stands for the path. -/
theorem placeholders_whole :
    ∃ u : Text, u.trim = path ∧
      placeholders (braced path) =
        .before [] ⟨.name, .literal u, braced path, .start⟩ (.last []) := by
  obtain ⟨x, hx, hshape⟩ := placeholder?_of_form (form_braced hpath hblank hne) []
  rw [List.append_nil] at hx
  have hkind : x.kind = .name := congrArg Shape.kind hshape
  have htext : x.text = braced path := congrArg Shape.text hshape
  have hraw : x.path.raw = path := by
    have hpad : ∀ c ∈ [' '], Text.isBlank c = true := List.forall_mem_singleton.mpr (by decide)
    exact (congrArg Shape.raw hshape).trans (Text.trim_surrounded hblank hpad hpad)
  -- Without a brace in it, the path is plain text.
  have hbrace : '\x7b' ∉ x.path.raw := by
    rw [hraw]
    intro hmem
    exact absurd (hpath _ hmem) (by decide)
  obtain ⟨u, hu⟩ := placeholder?_literal hx hbrace
  refine ⟨u, ?_, ?_⟩
  · rw [← hraw, hu]
    rfl
  · have hwhole : placeholders x.text = .before [] (x.token .start) (.last []) :=
      scan_whole (placeholder?_sound _ _ hx).1 (by rw [htext, hx])
    rw [← htext, hwhole, Lexeme.token, hkind, hu]

end

end ConfigTemplate
