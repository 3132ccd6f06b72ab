/-
Substitution.

Without sections a template is its text with every token replaced by a value.

* `run_strokesAll_nodes`: drawing segments fills them with the values of their tokens;
* `substitution_verbatim`: so rendering replaces the span of every token by its value, keeps
  every other byte, and does not look at what it has put in.
-/
import ConfigTemplate.Proofs.Inventory.Preflight
import ConfigTemplate.Proofs.Reference.Spans

namespace ConfigTemplate

namespace Segments

/-- Drawing segments fills them with the values of their tokens. -/
theorem run_strokesAll_nodes {frames : Context} {value : Token → Tree} {segments : Segments}
    (h : ∀ t ∈ segments.tokens, frames.resolve t.path = .ok (value t)) (output : Text) :
    Stroke.run (Node.strokesAll frames segments.nodes) output =
      (.ok (), output ++ segments.fill fun t => (value t).text) := by
  induction segments generalizing output with
  | last s => exact Node.run_literal frames s output
  | before gap t rest ih =>
    obtain ⟨ht, hrest⟩ := List.forall_mem_cons.mp h
    have hwritten : (Stroke.value frames t).written = .ok (value t).text := by
      rw [Stroke.written, ht]
      rfl
    rw [nodes, Node.strokesAll_append, Stroke.run_append, Node.run_literal]
    show Stroke.run (.value frames t :: Node.strokesAll frames rest.nodes) (output ++ gap) = _
    rw [Stroke.run, hwritten]
    show Stroke.run (Node.strokesAll frames rest.nodes) (output ++ gap ++ (value t).text) = _
    rw [ih hrest, fill, List.append_assoc, List.append_assoc, List.append_assoc]

theorem referencesAll_nodes (segments : Segments) :
    Node.referencesAll segments.nodes = segments.tokens := by
  induction segments with
  | last s => exact Node.referencesAll_literal s
  | before gap t rest ih => simp [nodes, tokens, ih]

end Segments

/-- A text without tags of sections renders to an output if and only if every token resolves
to a value and the output is the text filled with the values. -/
theorem render_eq_ok_iff_fill {source : Text}
    (hsections : ∀ t ∈ (placeholders source).tokens, t.isSection = false) {config : Tree}
    {output : Text} :
    render source config = .ok output ↔
      ∃ value : Token → Tree,
        (∀ t ∈ (placeholders source).tokens, Context.resolve [config] t.path = .ok (value t)) ∧
        output = (placeholders source).fill fun t => (value t).text := by
  rw [render_eq_ok_iff_of_parse (Template.parse_eq_nodes hsections)]
  constructor
  · intro h
    have hresolve : ∀ t ∈ (placeholders source).tokens,
        ∃ v, Context.resolve [config] t.path = .ok v := by
      intro t ht
      rw [← Segments.referencesAll_nodes] at ht
      exact Template.exists_resolve_of_render (Node.flat_nodes _) h ht
    have hnonempty : Nonempty Tree := ⟨.null⟩
    choose! value hvalue using hresolve
    rw [Template.render_eq_ok_iff, Segments.run_strokesAll_nodes hvalue, List.nil_append] at h
    exact ⟨value, hvalue, (Prod.mk.inj h).2.symm⟩
  · rintro ⟨value, hvalue, rfl⟩
    rw [Template.render_eq_ok_iff, Segments.run_strokesAll_nodes hvalue, List.nil_append]

/-- A text without tags of sections renders to an output if and only if every token resolves
to a value and the bytes of the output are those of the text with the values for the spans. -/
theorem render_eq_ok_iff_substitute {source : Text}
    (hsections : ∀ t ∈ (placeholders source).tokens, t.isSection = false) {config : Tree}
    {output : Text} :
    render source config = .ok output ↔
      ∃ value : Token → Tree,
        (∀ t ∈ (placeholders source).tokens, Context.resolve [config] t.path = .ok (value t)) ∧
        Utf8.encode output = substitute (Utf8.encode source) (fun t => (value t).text) 0
          (placeholders source).tokens := by
  rw [render_eq_ok_iff_fill hsections]
  refine exists_congr fun value => and_congr_right fun _ => ?_
  rw [placeholders, substitute_scan placeholder?_sound, Utf8.encode_inj]

/-- **Substitution is verbatim.**  In a text without tags of sections the spans of the tokens
follow one another, and each holds the text of its token.  The text renders to an output if and
only if every token resolves to a value in the configuration, and the bytes of the output are
those of the text with each of the spans replaced by the text of the value.  So a text without
tokens renders to itself. -/
theorem substitution_verbatim {source : Text}
    (hsections : ∀ t ∈ (placeholders source).tokens, t.isSection = false) :
    Spans (Utf8.encode source) 0 (placeholders source).tokens ∧
    (∀ config output, render source config = .ok output ↔
      ∃ value : Token → Tree,
        (∀ t ∈ (placeholders source).tokens, Context.resolve [config] t.path = .ok (value t)) ∧
        Utf8.encode output = substitute (Utf8.encode source) (fun t => (value t).text) 0
          (placeholders source).tokens) ∧
    ((placeholders source).tokens = [] → ∀ config, render source config = .ok source) := by
  refine ⟨spans_scan placeholder?_sound source, ?_, ?_⟩
  · intro config output
    exact render_eq_ok_iff_substitute hsections
  · intro hnone config
    rw [render_eq_ok_iff_substitute hsections, hnone]
    exact ⟨fun _ => .null, nofun, rfl⟩

/-- A reference behind a character of two bytes, and one behind a brace and another one. -/
def bracedSource : Text :=
  "é\x7b\x7bx\x7d\x7d\x7bß\x7b\x7b x \x7d\x7d".toList

/-- A value that looks like a reference. -/
def bracedConfig : Tree :=
  .map [("x".toList, .string "\x7b\x7b y \x7d\x7d.x".toList), ("y".toList, .bool true)]

/-- What looks like a reference in the value is left as it is. -/
theorem bracedSource_verbatim :
    (∀ t ∈ (placeholders bracedSource).tokens, t.isSection = false) ∧
      Spans (Utf8.encode bracedSource) 0 (placeholders bracedSource).tokens ∧
      render bracedSource bracedConfig =
        .ok "é\x7b\x7b y \x7d\x7d.x\x7bß\x7b\x7b y \x7d\x7d.x".toList := by
  have htokens : (placeholders bracedSource).tokens =
      [⟨.name, .literal "x".toList, "\x7b\x7bx\x7d\x7d".toList, ⟨1, 2⟩⟩,
        ⟨.name, .literal "x ".toList, "\x7b\x7b x \x7d\x7d".toList, ⟨1, 10⟩⟩] := by
    decide +kernel
  have hsections : ∀ t ∈ (placeholders bracedSource).tokens, t.isSection = false := by
    rw [htokens]
    decide
  have hvalue : ∀ t ∈ (placeholders bracedSource).tokens,
      Context.resolve [bracedConfig] t.path =
        .ok (.string "\x7b\x7b y \x7d\x7d.x".toList) := by
    rw [htokens]
    simp only [List.forall_mem_cons]
    exact ⟨rfl, rfl, List.forall_mem_nil _⟩
  obtain ⟨hspans, hrender, -⟩ := substitution_verbatim hsections
  refine ⟨hsections, hspans, (hrender _ _).mpr ⟨_, hvalue, ?_⟩⟩
  rw [htokens]
  decide

end ConfigTemplate
