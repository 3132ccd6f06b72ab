/-
Checking a configuration before rendering.

An inventory is made without parsing, and its fatal keys are meant to say whether
a template can be rendered:

* `verify_of_isSatisfied`: if there are none, verifying finds nothing missing;
* `extraction_decides_rendering`: without sections they decide rendering, and the
  first of them is what rendering fails with.
-/
import ConfigTemplate.Proofs.Inventory.Fatal
import ConfigTemplate.Proofs.Template.Strokes

namespace ConfigTemplate

/-- What a satisfied inventory says about a parsed template: every reference in it
leads somewhere. -/
theorem resolve_of_isSatisfied {source : Text} {config : Tree} {template : Template}
    (hparse : Template.parse source = .ok template)
    (hsat : (extract .placeholders source (some config)).isSatisfied = true) {t : Token}
    (ht : t ∈ Node.referencesAll template.nodes) :
    ∃ v, Context.resolve [config] t.path = .ok v := by
  rw [Template.references_parse hparse, List.mem_filter] at ht
  exact isSatisfied_extract_iff.mp hsat t ht.1 (by simpa using ht.2)

/-- Verifying finds nothing missing if nothing is fatal, with sections or without. -/
theorem verify_of_isSatisfied {source : Text} {config : Tree} {template : Template}
    (hparse : Template.parse source = .ok template)
    (hsat : (extract .placeholders source (some config)).isSatisfied = true) :
    template.verify config = .ok () := by
  refine (Template.verify_ok_iff template config).mpr fun t ht => ?_
  exact resolve_of_isSatisfied hparse hsat (Node.mem_referencesAll (Node.mem_outside.mp ht))

theorem render_of_parse {source : Text} {template : Template}
    (hparse : Template.parse source = .ok template) (config : Tree) :
    render source config =
      match template.render config with
      | .ok output => .ok output
      | .error m => .error (.missing m.path) := by
  rcases hr : template.render config with m | output <;>
    simp [render, hparse, hr, bind, Except.bind]

theorem render_eq_ok_iff_of_parse {source : Text} {template : Template}
    (hparse : Template.parse source = .ok template) {config : Tree} {output : Text} :
    render source config = .ok output ↔ template.render config = .ok output := by
  rw [render_of_parse hparse]
  rcases template.render config with m | output' <;> simp

theorem render_ok_iff_of_parse {source : Text} {template : Template}
    (hparse : Template.parse source = .ok template) (config : Tree) :
    (∃ output, render source config = .ok output) ↔
      ∃ output, template.render config = .ok output := by
  rw [render_of_parse hparse]
  rcases template.render config with m | output <;> simp

section

variable {source : Text} {config : Tree}

/-- Without sections, the first fatal key is what rendering fails with. -/
theorem render_of_fatal (hsections : ∀ t ∈ (placeholders source).tokens, t.isSection = false)
    {r : Record} {rs : List Record}
    (h : (extract .placeholders source (some config)).fatal.records = r :: rs) :
    render source config = .error (.missing r.key) := by
  obtain ⟨template, hparse, hflat⟩ := Template.parse_flat hsections
  -- The references outside sections are all there are, in the order of the text.
  have hfirst : Context.firstMissing [config] (Node.outside template.nodes) = some ⟨r.key⟩ := by
    rw [hflat.outside_eq, Template.references_parse hparse, ← firstFatal_extract,
      Inventory.firstFatal_eq_some_iff]
    exact ⟨r, rs, h, rfl⟩
  have hverify : template.verify config = .error ⟨r.key⟩ := by
    rw [Template.verify_eq, hfirst]
    rfl
  rw [render_of_parse hparse, Template.render_of_verify_error hverify]

/-- Without sections, a template renders if nothing is fatal. -/
theorem render_of_isSatisfied
    (hsections : ∀ t ∈ (placeholders source).tokens, t.isSection = false)
    (hsat : (extract .placeholders source (some config)).isSatisfied = true) :
    ∃ output, render source config = .ok output := by
  obtain ⟨template, hparse, hflat⟩ := Template.parse_flat hsections
  rw [render_ok_iff_of_parse hparse, Template.render_ok_iff]
  intro frames t ht
  obtain rfl : frames = [config] := hflat.frames_eq ht
  have hmem : t ∈ Node.referencesAll template.nodes := (Node.mem_references_of_mem_strokes ht).1
  exact resolve_of_isSatisfied hparse hsat hmem

end

/-- **Without sections, extraction decides rendering**: a template renders exactly
if no key is fatal, and otherwise fails with the first fatal key.  With sections
or without, verifying succeeds if no key is fatal. -/
theorem extraction_decides_rendering (source : Text) (config : Tree) :
    ((∀ t ∈ (placeholders source).tokens, t.isSection = false) →
      ((∃ output, render source config = .ok output) ↔
        (extract .placeholders source (some config)).fatal.records = []) ∧
      ∀ r rs, (extract .placeholders source (some config)).fatal.records = r :: rs →
        render source config = .error (.missing r.key)) ∧
    ∀ template, Template.parse source = .ok template →
      (extract .placeholders source (some config)).fatal.records = [] →
      template.verify config = .ok () := by
  refine ⟨fun hsections => ⟨⟨?_, fun h => ?_⟩, fun r rs h => render_of_fatal hsections h⟩,
    fun template hparse h => verify_of_isSatisfied hparse (Inventory.isSatisfied_iff.mpr h)⟩
  · rintro ⟨output, h⟩
    rcases hr : (extract .placeholders source (some config)).fatal.records with _ | ⟨r, rs⟩
    · rfl
    · rw [render_of_fatal hsections hr] at h
      exact absurd h (by simp)
  · exact render_of_isSatisfied hsections (Inventory.isSatisfied_iff.mpr h)

end ConfigTemplate
