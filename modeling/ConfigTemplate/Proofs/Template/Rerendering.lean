/-
Rendering what has been rendered.

Files are rendered in place, so what a template renders to may be rendered again.  That
changes nothing if there is no reference in it, and none is there if no two braces have come
to stand side by side: neither in the pieces that were written one behind the other, nor at
the seams between them.

* `Text.Bare.append`: a seam is safe if what stands behind it begins with no brace;
* `Stroke.bare_run`: so is what strokes write that begin with none;
* `render_of_bare`: a text without opening braces is rendered to itself;
* `rendered_once_and_for_all`: a template whose pieces are safe renders to such a text.

Design notes: the first piece stands behind nothing, so that it may begin with a brace.  No
invariant about the end of the output is needed, for what is asked of each piece is asked of
its front.
-/
import ConfigTemplate.Proofs.Inventory.Preflight
import ConfigTemplate.Proofs.Template.Source

namespace ConfigTemplate

/-! ### Texts without opening braces -/

namespace Text

/-- Whether a text has no two opening braces side by side. -/
def Bare (s : Text) : Prop :=
  ¬ ['\x7b', '\x7b'] <:+: s

instance (s : Text) : Decidable s.Bare :=
  inferInstanceAs (Decidable (¬ _))

theorem bare_nil : Bare [] := by simp [Bare]

theorem bare_cons_iff {c : Char} {s : Text} :
    Bare (c :: s) ↔ ¬ (c = '\x7b' ∧ s.head? = some '\x7b') ∧ s.Bare := by
  have hfront : ['\x7b', '\x7b'] <+: c :: s ↔ c = '\x7b' ∧ s.head? = some '\x7b' := by
    cases s <;> simp [eq_comm]
  rw [Bare, List.infix_cons_iff, hfront, not_or, Bare]

theorem bare_of_not_mem {s : Text} (h : '\x7b' ∉ s) : s.Bare :=
  fun hbraces => h (hbraces.subset List.mem_cons_self)

/-- **At a seam no braces come together** if what stands behind it begins with none. -/
theorem Bare.append {s t : Text} (hs : s.Bare) (ht : t.Bare) (hhead : t.head? ≠ some '\x7b') :
    Bare (s ++ t) := by
  induction s with
  | nil => exact ht
  | cons c s ih =>
    rw [bare_cons_iff] at hs
    obtain ⟨hfront, hs⟩ := hs
    rw [List.cons_append, bare_cons_iff]
    refine ⟨fun ⟨hc, hnext⟩ => ?_, ih hs⟩
    -- The brace behind `c` is in `s`, or at the seam.
    cases s with
    | nil => exact hhead hnext
    | cons d s => exact hfront ⟨hc, hnext⟩

end Text

open Placeholder in
theorem exists_text_of_placeholder? {s : Text} {x : Lexeme} (h : placeholder? s = some x) :
    ∃ u, x.text = '\x7b' :: '\x7b' :: u := by
  obtain ⟨_, _, _, _, _, _, _, -, -, -, -, -, rfl⟩ := placeholder?_cases h
  exact ⟨_, rfl⟩

/-- A text without opening braces has no placeholder. -/
theorem tokens_placeholders_of_bare {s : Text} (h : s.Bare) : (placeholders s).tokens = [] := by
  refine List.eq_nil_iff_forall_not_mem.mpr fun t ht => h ?_
  have hinfix : t.text <:+: (placeholders s).source := Segments.text_infix_of_mem_tokens ht
  rw [placeholders, source_scan placeholder?_sound] at hinfix
  obtain ⟨_, x, m, hx, rfl⟩ := exists_of_mem_tokens_scanFrom ht
  obtain ⟨u, hu⟩ := exists_text_of_placeholder? hx
  have hprefix : ['\x7b', '\x7b'] <+: (x.token m).text := ⟨u, hu.symm⟩
  exact hprefix.isInfix.trans hinfix

/-- A text without opening braces is rendered to itself. -/
theorem render_of_bare {s : Text} (h : s.Bare) (config : Tree) : render s config = .ok s := by
  have hlast : placeholders s = .last s := by
    have := Segments.eq_last_of_tokens (tokens_placeholders_of_bare h)
    rwa [placeholders, source_scan placeholder?_sound] at this
  have hparse : Template.parse s = .ok ⟨Node.literal s⟩ := by
    rw [Template.parse, hlast]
    rfl
  rw [render_eq_ok_iff_of_parse hparse, Template.render_eq_ok_iff]
  exact Node.run_literal [config] s []

/-! ### Pieces one behind the other -/

/-- **Strokes whose pieces begin with no brace** leave no opening braces at any seam. -/
theorem Stroke.bare_run {ks : List Stroke} {output output' : Text}
    (hks : ∀ k ∈ ks, ∀ s, k.written = .ok s → s.Bare ∧ s.head? ≠ some '\x7b')
    (hrun : run ks output = (.ok (), output')) (h : output.Bare) : output'.Bare := by
  induction ks generalizing output with
  | nil =>
    obtain rfl : output = output' := congrArg Prod.snd hrun
    exact h
  | cons k ks ih =>
    obtain ⟨hk, hks⟩ := List.forall_mem_cons.mp hks
    rw [run] at hrun
    cases hs : k.written with
    | error m =>
      rw [hs] at hrun
      cases congrArg Prod.fst hrun
    | ok s =>
      rw [hs] at hrun
      obtain ⟨hbare, hhead⟩ := hk s hs
      exact ih hks hrun (h.append hbare hhead)

namespace Node

mutual

/-- The literal texts of a node, at whatever depth. -/
def texts : Node → List Text
  | .text s => [s]
  | .reference _ => []
  | .block _ body => textsAll body

/-- The literal texts of nodes in a row, at whatever depth. -/
def textsAll : List Node → List Text
  | [] => []
  | n :: ns => n.texts ++ textsAll ns

end

/-- The literal texts of nodes but for a text that is the first of them. -/
def textsBehindFirst : List Node → List Text
  | .text _ :: ns => textsAll ns
  | ns => textsAll ns

theorem mem_textsAll_of_mem_strokes {ns : List Node} {frames : Context} {s : Text}
    (h : .text s ∈ strokesAll frames ns) : s ∈ textsAll ns := by
  induction ns using inductAll generalizing frames with
  | nil => exact absurd h List.not_mem_nil
  | text u ns ih =>
    rw [textsAll, texts, List.singleton_append, List.mem_cons]
    rcases List.mem_append.mp h with h | h
    · exact .inl (by simpa [strokes] using h)
    · exact .inr (ih h)
  | reference t ns ih =>
    rcases List.mem_append.mp h with h | h
    · simp [strokes] at h
    · exact ih h
  | block tag body ns hbody ih =>
    rw [textsAll, texts, List.mem_append]
    rcases List.mem_append.mp h with h | h
    · rcases mem_strokes_block h with h | ⟨t, h⟩
      · exact .inl (hbody h)
      · exact .inl (hbody h)
    · exact .inr (ih h)

section

variable {ns : List Node} {frames : Context}
  (hvalues : ∀ frames' t v, .value frames' t ∈ strokesAll frames ns →
    frames'.resolve t.path = .ok v → '\x7b' ∉ v.text)

include hvalues

/-- Pieces of nodes whose texts begin with no brace begin with none either. -/
theorem bare_of_mem_strokes (htexts : ∀ s ∈ textsAll ns, s.Bare ∧ s.head? ≠ some '\x7b') :
    ∀ k ∈ strokesAll frames ns, ∀ s, k.written = .ok s → s.Bare ∧ s.head? ≠ some '\x7b' := by
  intro k hk s hs
  cases k with
  | text u =>
    obtain rfl : u = s := Except.ok.inj hs
    exact htexts u (mem_textsAll_of_mem_strokes hk)
  | value frames' t =>
    rw [Stroke.written] at hs
    cases hv : frames'.resolve t.path with
    | error m =>
      rw [hv] at hs
      cases hs
    | ok v =>
      rw [hv] at hs
      obtain rfl : v.text = s := Except.ok.inj hs
      have hnone := hvalues frames' t v hk hv
      exact ⟨Text.bare_of_not_mem hnone, fun hhead => hnone (List.mem_of_mem_head? hhead)⟩

/-- What nodes write has no opening braces if their texts have none and no piece behind the
first one begins with a brace. -/
theorem bare_of_run (hbare : ∀ s ∈ textsAll ns, s.Bare)
    (hhead : ∀ s ∈ textsBehindFirst ns, s.head? ≠ some '\x7b') {output : Text}
    (hrun : Stroke.run (strokesAll frames ns) [] = (.ok (), output)) : output.Bare := by
  match ns with
  | .text s :: ns =>
    -- The first text is written to an empty output, and the rest behind it.
    have hstrokes : strokesAll frames (.text s :: ns) = .text s :: strokesAll frames ns := rfl
    rw [hstrokes] at hrun hvalues
    have hrest := @bare_of_mem_strokes ns frames
      (fun frames' t v hk => hvalues frames' t v (List.mem_cons_of_mem _ hk))
      fun u hu => ⟨hbare u (List.mem_append_right _ hu), hhead u hu⟩
    exact Stroke.bare_run hrest hrun (hbare s List.mem_cons_self)
  | [] =>
    exact Stroke.bare_run (bare_of_mem_strokes hvalues nofun) hrun Text.bare_nil
  | .reference _ :: _ | .block _ _ :: _ =>
    exact Stroke.bare_run (bare_of_mem_strokes hvalues fun u hu => ⟨hbare u hu, hhead u hu⟩) hrun
      Text.bare_nil

end

end Node

/-- **What has been rendered may be rendered again.**  If no literal text of a template has
two opening braces side by side, none but one at its very front begins with a brace, and no
value that is drawn has a brace in its text, then what the template renders to has no
placeholder and renders to itself, whatever the configuration. -/
theorem rendered_once_and_for_all {source : Text} {config : Tree} {out : Text}
    {template : Template} (hparse : Template.parse source = .ok template)
    (hrender : render source config = .ok out)
    (hbare : ∀ s ∈ Node.textsAll template.nodes, ¬ ['\x7b', '\x7b'] <:+: s)
    (hhead : ∀ s ∈ Node.textsBehindFirst template.nodes, s.head? ≠ some '\x7b')
    (hvalues : ∀ frames t v, .value frames t ∈ Node.strokesAll [config] template.nodes →
      Context.resolve frames t.path = .ok v → '\x7b' ∉ v.text) :
    (placeholders out).tokens = [] ∧ ∀ config', render out config' = .ok out := by
  rw [render_eq_ok_iff_of_parse hparse, Template.render_eq_ok_iff] at hrender
  have hout : out.Bare := Node.bare_of_run hvalues hbare hhead hrender
  exact ⟨tokens_placeholders_of_bare hout, render_of_bare hout⟩

/-- A document with braces of its own: one at the front, and one before a value. -/
def documentSource : Text :=
  "\x7b\"a\": \x7b\x7b x \x7d\x7d, \"l\": [\x7b\x7b#l\x7d\x7d<\x7b".toList ++
    "\x7b\x7b.\x7d\x7d\x7d>\x7b\x7b/l\x7d\x7d]\x7d".toList

/-- The second item of the list is empty. -/
def documentConfig : Tree :=
  .map [("x".toList, .bool true), ("l".toList, .list [.string "p".toList, .string []])]

/-- The reference to `x`. -/
def documentField : Token :=
  ⟨.name, .literal "x ".toList, "\x7b\x7b x \x7d\x7d".toList, ⟨1, 6⟩⟩

/-- The reference to the item of the list. -/
def documentItem : Token :=
  ⟨.name, .literal ".".toList, "\x7b\x7b.\x7d\x7d".toList, ⟨1, 29⟩⟩

/-- The document parsed. -/
def documentTemplate : Template :=
  ⟨[.text "\x7b\"a\": ".toList,
    .reference documentField,
    .text ", \"l\": [".toList,
    .block ⟨.opening, .literal "l".toList, "\x7b\x7b#l\x7d\x7d".toList, ⟨1, 21⟩⟩
      [.text "<\x7b".toList, .reference documentItem, .text "\x7d>".toList],
    .text "]\x7d".toList]⟩

/-- What the document renders to. -/
def documentOutput : Text :=
  "\x7b\"a\": true, \"l\": [<\x7bp\x7d><\x7b\x7d>]\x7d".toList

/-- The document that it renders to has braces of its own, and renders to itself. -/
theorem documentSource_once :
    render documentSource documentConfig = .ok documentOutput ∧
      ∀ config, render documentOutput config = .ok documentOutput := by
  have hparse : Template.parse documentSource = .ok documentTemplate := by decide +kernel
  have hrender : render documentSource documentConfig = .ok documentOutput := by decide +kernel
  have hbare : ∀ s ∈ Node.textsAll documentTemplate.nodes, ¬ ['\x7b', '\x7b'] <:+: s := by
    decide +kernel
  have hhead : ∀ s ∈ Node.textsBehindFirst documentTemplate.nodes, s.head? ≠ some '\x7b' := by
    decide +kernel
  have hvalues : ∀ frames t v,
      .value frames t ∈ Node.strokesAll [documentConfig] documentTemplate.nodes →
      Context.resolve frames t.path = .ok v → '\x7b' ∉ v.text := by
    have hstrokes : Node.strokesAll [documentConfig] documentTemplate.nodes =
        [.text "\x7b\"a\": ".toList, .value [documentConfig] documentField,
          .text ", \"l\": [".toList,
          .text "<\x7b".toList, .value [.string "p".toList, documentConfig] documentItem,
          .text "\x7d>".toList,
          .text "<\x7b".toList, .value [.string [], documentConfig] documentItem,
          .text "\x7d>".toList,
          .text "]\x7d".toList] := rfl
    intro frames t v hk hv
    simp only [hstrokes, List.mem_cons, Stroke.value.injEq, reduceCtorEq, false_or, or_false,
      List.not_mem_nil] at hk
    rcases hk with ⟨rfl, rfl⟩ | ⟨rfl, rfl⟩ | ⟨rfl, rfl⟩
    · have hx : Context.resolve [documentConfig] documentField.path = .ok (.bool true) := rfl
      obtain rfl : .bool true = v := Except.ok.inj (hx.symm.trans hv)
      decide
    · have hp : Context.resolve [.string "p".toList, documentConfig] documentItem.path =
          .ok (.string "p".toList) := rfl
      obtain rfl : .string "p".toList = v := Except.ok.inj (hp.symm.trans hv)
      decide
    · have hempty : Context.resolve [.string [], documentConfig] documentItem.path =
          .ok (.string []) := rfl
      obtain rfl : .string [] = v := Except.ok.inj (hempty.symm.trans hv)
      decide
  exact ⟨hrender, (rendered_once_and_for_all hparse hrender hbare hhead hvalues).2⟩

end ConfigTemplate
