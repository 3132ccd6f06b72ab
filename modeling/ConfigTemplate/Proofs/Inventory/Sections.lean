/-
Checking a configuration for templates with sections.

Extraction looks every reference up in the configuration itself, but the body of a
section is drawn with more trees on the context.

* `render_iff_not_shadowed`: if nothing is fatal, a template renders exactly if no
  reference that is drawn is shadowed by the trees that the sections around it have
  pushed, and those whose nested references these trees hide lead somewhere anew;
* `satisfied_and_shadowed`: a template for which nothing is fatal and which does not
  render.
-/
import ConfigTemplate.Proofs.Inventory.Preflight
import ConfigTemplate.Proofs.Template.Shadowing

namespace ConfigTemplate

/-- `template.Draws config pushed t`: the reference `t` is drawn where the sections
around it have pushed these trees. -/
def Template.Draws (template : Template) (config : Tree) (pushed : Context) (t : Token) : Prop :=
  .value (pushed ++ [config]) t ∈ Node.strokesAll [config] template.nodes

/-- In a template for which nothing is fatal, a reference leads somewhere where it is
drawn unless it is shadowed, if no reference nested in it is hidden there. -/
theorem Template.Draws.exists_resolve_iff {source : Text} {config : Tree} {template : Template}
    {pushed : Context} {t : Token} (hdraws : template.Draws config pushed t)
    (hparse : Template.parse source = .ok template)
    (hsat : (extract .placeholders source (some config)).isSatisfied = true)
    (hvisible : ¬ Context.HidesNested pushed [config] t.path) :
    (∃ v, Context.resolve (pushed ++ [config]) t.path = .ok v) ↔
      ∀ key, Context.resolvePath [config] t.path = .ok key → ¬ Context.Shadows pushed key := by
  have hmem := (Node.mem_references_of_mem_strokes hdraws).1
  obtain ⟨v, hv⟩ := resolve_of_isSatisfied hparse hsat hmem
  obtain ⟨key, hkey, hlookup⟩ := Context.exists_key_of_resolve hv
  rw [Context.exists_resolve_append_iff hvisible hkey hlookup, hkey]
  simp

/-- **With sections, extraction decides rendering up to shadowing.**  If nothing is
fatal, a template renders exactly if no reference that is drawn is shadowed.  Where the
sections hide a reference nested in the path, the path is another one, of which the
inventory says nothing, and has to lead somewhere itself. -/
theorem render_iff_not_shadowed {source : Text} {config : Tree} {template : Template}
    (hparse : Template.parse source = .ok template)
    (hsat : (extract .placeholders source (some config)).isSatisfied = true) :
    (∃ output, render source config = .ok output) ↔
      ∀ pushed t, template.Draws config pushed t →
        (¬ Context.HidesNested pushed [config] t.path →
          ∀ key, Context.resolvePath [config] t.path = .ok key → ¬ Context.Shadows pushed key) ∧
        (Context.HidesNested pushed [config] t.path →
          ∃ v, Context.resolve (pushed ++ [config]) t.path = .ok v) := by
  rw [render_ok_iff_of_parse hparse, Template.render_ok_iff]
  constructor
  · intro h pushed t hdraws
    refine ⟨fun hvisible => ?_, fun _ => h _ t hdraws⟩
    exact (hdraws.exists_resolve_iff hparse hsat hvisible).mp (h _ t hdraws)
  · intro h frames t ht
    -- The frames of a stroke are what the sections have pushed on the configuration.
    obtain ⟨-, pushed, rfl⟩ := Node.mem_references_of_mem_strokes ht
    have hdraws : template.Draws config pushed t := ht
    obtain ⟨hshadows, hanew⟩ := h pushed t hdraws
    by_cases hhides : Context.HidesNested pushed [config] t.path
    · exact hanew hhides
    · exact (hdraws.exists_resolve_iff hparse hsat hhides).mpr (hshadows hhides)

/-! ### A section that hides nothing -/

/-- A section over `s` with a reference whose path is the value of `r`. -/
def plainSource : Text :=
  "\x7b\x7b#s\x7d\x7d\x7b\x7b\x7b\x7br\x7d\x7d\x7d\x7d\x7b\x7b/s\x7d\x7d".toList

/-- The value of `r` is `a`, and `s` has only a `b`. -/
def plainConfig : Tree :=
  .map [("r".toList, .string "a".toList), ("a".toList, .string "x".toList),
    ("s".toList, .map [("b".toList, .string "y".toList)])]

/-- The reference in the section. -/
def plainToken : Token :=
  ⟨.composed, ⟨"\x7b\x7br\x7d\x7d".toList, [.ref (.literal "r".toList)]⟩,
    "\x7b\x7b\x7b\x7br\x7d\x7d\x7d\x7d".toList, ⟨1, 6⟩⟩

/-- The template parsed. -/
def plainTemplate : Template :=
  ⟨[.block ⟨.opening, .literal "s".toList, "\x7b\x7b#s\x7d\x7d".toList, ⟨1, 0⟩⟩
    [.reference plainToken]]⟩

/-- The section pushes a tree that has neither `r` nor `a`, so the template renders. -/
theorem render_plainSource : ∃ output, render plainSource plainConfig = .ok output := by
  have hparse : Template.parse plainSource = .ok plainTemplate := by decide +kernel
  have hstrokes : Node.strokesAll [plainConfig] plainTemplate.nodes =
      [.value ([.map [("b".toList, .string "y".toList)]] ++ [plainConfig]) plainToken] := rfl
  have hdraws : ∀ pushed t, plainTemplate.Draws plainConfig pushed t →
      pushed = [.map [("b".toList, .string "y".toList)]] ∧ t = plainToken := by
    intro pushed t h
    rw [Template.Draws, hstrokes, List.mem_singleton, Stroke.value.injEq] at h
    exact ⟨List.append_cancel_right h.1, h.2⟩
  refine (render_iff_not_shadowed hparse (by decide +kernel)).mpr fun pushed t h => ?_
  obtain ⟨rfl, rfl⟩ := hdraws pushed t h
  refine ⟨fun _ key hkey => ?_, fun _ => ⟨.string "x".toList, rfl⟩⟩
  obtain rfl : "a".toList = key := by
    have ha : Context.resolvePath [plainConfig] plainToken.path = .ok "a".toList := rfl
    exact Except.ok.inj (ha.symm.trans hkey)
  rintro ⟨-, u, hu, -⟩
  have hhas := List.find?_some hu
  rw [List.mem_singleton.mp (List.mem_of_find?_eq_some hu)] at hhas
  exact absurd hhas (by decide +kernel)

/-! ### A section that shadows -/

/-- A section over `s` with a reference to `a.b`. -/
def shadowedSource : Text :=
  "\x7b\x7b#s\x7d\x7d\x7b\x7b a.b \x7d\x7d\x7b\x7b/s\x7d\x7d".toList

/-- There is an `a.b`, but `s` has an `a` of its own without a `b`. -/
def shadowedConfig : Tree :=
  .map [("a".toList, .map [("b".toList, .string "x".toList)]),
    ("s".toList, .map [("a".toList, .string "y".toList)])]

/-- Nothing is fatal, and still the template does not render. -/
theorem satisfied_and_shadowed :
    (Template.parse shadowedSource).isOk = true ∧
      (extract .placeholders shadowedSource (some shadowedConfig)).isSatisfied = true ∧
      render shadowedSource shadowedConfig = .error (.missing "a.b".toList) := by
  decide +kernel

end ConfigTemplate
