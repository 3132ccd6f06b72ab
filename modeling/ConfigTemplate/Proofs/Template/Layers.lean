/-
Rendering with further layers of configuration.

Layers that are appended have less precedence than those before them, so they fill in
what is missing there and change nothing else.

* `lookup_extends`: what a name leads to, it leads to in a configuration that extends the
  first one;
* `resolve_extends`: a reference that needs no map resolves to the same value;
* `appended_layers_fill_in`: and so a text without sections renders to the same output.

Design notes: a map may get more entries, and with them another text.  Spliced into the
path around it, such a text leads elsewhere, so `MapFree` is about the references nested
in a path too.
-/
import ConfigTemplate.Proofs.Inventory.Preflight
import ConfigTemplate.Proofs.Template.Agreement
import ConfigTemplate.Proofs.Tree.Extension

namespace ConfigTemplate

namespace Context

/-- Whether no value that is looked up to resolve a path is a map: neither that of the path
nor that of a reference nested in it. -/
def MapFree (frames : Context) (p : Path) : Prop :=
  ∀ q : Path, (q = p ∨ q.Inside p) → ∀ v, frames.resolve q = .ok v → v.isMap = false

theorem MapFree.value {frames : Context} {p : Path} (h : MapFree frames p) {v : Tree}
    (hv : frames.resolve p = .ok v) : v.isMap = false :=
  h p (.inl rfl) v hv

theorem MapFree.ref {frames : Context} {p q : Path} (h : MapFree frames p)
    (hq : .ref q ∈ p.parts) : MapFree frames q := by
  rintro r (rfl | hr)
  · exact h r (.inr (.direct hq))
  · exact h r (.inr (.deeper hq hr))

theorem mapFree_of_refs {frames : Context} {p : Path}
    (hvalue : ∀ v, frames.resolve p = .ok v → v.isMap = false)
    (hrefs : ∀ q, .ref q ∈ p.parts → MapFree frames q) : MapFree frames p := by
  rintro q (rfl | hq)
  · exact hvalue
  · cases hq with
    | direct hq => exact hrefs q hq q (.inl rfl)
    | deeper hr hq => exact hrefs _ hr q (.inr hq)

/-- The references in a path that can be spliced resolve. -/
theorem exists_resolve_of_splice {frames : Context} {parts : List Part} {s : Text}
    (h : frames.splice parts = .ok s) {q : Path} (hq : .ref q ∈ parts) :
    ∃ v, frames.resolve q = .ok v := by
  induction parts generalizing s with
  | nil => cases hq
  | cons part parts ih =>
    cases part with
    | text u =>
      rcases hrest : frames.splice parts with m | rest
      · simp [splice, hrest, bind, Except.bind] at h
      · exact ih hrest (by simpa using hq)
    | ref p =>
      -- The path of the reference, its value and the rest are found one after another.
      rcases hp : frames.resolvePath p with m | key
      · simp [splice, hp, bind, Except.bind] at h
      rcases hv : frames.find key with m | v
      · simp [splice, hp, hv, bind, Except.bind] at h
      rcases hrest : frames.splice parts with m | rest
      · simp [splice, hp, hv, hrest, bind, Except.bind] at h
      rcases List.mem_cons.mp hq with hq | hq
      · obtain rfl : q = p := Part.ref.inj hq
        exact ⟨v, (resolve_of_resolvePath hp).trans hv⟩
      · exact ih hrest hq

/-! ### A configuration that extends another one -/

section

variable {c d : Tree}

theorem lookup_extends (h : c.Extends d) (path : Text) :
    Tree.ExtendsAt (lookup [c] path) (lookup [d] path) := by
  by_cases hp : path = current
  · rw [hp, lookup_current, lookup_current]
    exact Tree.extendsAt_some h
  · rw [lookup_singleton c hp, lookup_singleton d hp]
    exact h.lookup (segments path)

theorem find_extends (h : c.Extends d) {key : Text} {v : Tree} (hv : find [c] key = .ok v)
    (hmap : v.isMap = false) : find [d] key = .ok v := by
  obtain ⟨w, hw, hvw⟩ := lookup_extends h key v (find_eq_ok_iff.mp hv)
  obtain rfl : w = v := hvw.eq_of_not_map hmap
  exact find_eq_ok_iff.mpr hw

/-- **A path stands for the same dotted path** if no reference in it leads to a map. -/
theorem resolvePath_extends (h : c.Extends d) {p : Path} {key : Text}
    (hfree : ∀ q, .ref q ∈ p.parts → MapFree [c] q) (hkey : resolvePath [c] p = .ok key) :
    resolvePath [d] p = .ok key := by
  induction p generalizing key with
  | mk raw parts ih =>
    have hparts : splice [d] parts = splice [c] parts := by
      rcases hs : splice [c] parts with m | s
      · simp [resolvePath, hs, bind, Except.bind] at hkey
      rw [← hs]
      -- The path could be spliced, so each reference in it resolves, and not to a map.
      refine splice_congr (fun q hq => ?_) fun q hq key' hkey' => ?_
      · obtain ⟨v, hv⟩ := exists_resolve_of_splice hs hq
        obtain ⟨key', hkey', -⟩ := exists_key_of_resolve hv
        rw [hkey', ih q hq (fun r hr => (hfree q hq).ref hr) hkey']
      · obtain ⟨v, hv⟩ := exists_resolve_of_splice hs hq
        have hfound := (resolve_of_resolvePath hkey').symm.trans hv
        rw [hfound, find_extends h hfound ((hfree q hq).value hv)]
    rw [resolvePath, hparts]
    rwa [resolvePath] at hkey

/-- **A reference that needs no map resolves to the same value.** -/
theorem resolve_extends (h : c.Extends d) {p : Path} {v : Tree} (hfree : MapFree [c] p)
    (hv : resolve [c] p = .ok v) : resolve [d] p = .ok v := by
  obtain ⟨key, hkey, hlookup⟩ := exists_key_of_resolve hv
  rw [resolve_of_resolvePath (resolvePath_extends h (fun q hq => hfree.ref hq) hkey)]
  exact find_extends h (find_eq_ok_iff.mpr hlookup) (hfree.value hv)

end

end Context

/-! ### Text without sections -/

namespace Node

/-- Nodes without sections write what their references resolve to. -/
theorem Flat.map_written_strokesAll {ns : List Node} (hflat : Flat ns)
    {frames frames' : Context}
    (h : ∀ t ∈ referencesAll ns, frames.resolve t.path = frames'.resolve t.path) :
    (strokesAll frames ns).map Stroke.written = (strokesAll frames' ns).map Stroke.written := by
  induction ns with
  | nil => rfl
  | cons n ns ih =>
    rw [referencesAll_cons] at h
    have hns := ih hflat.tail fun t ht => h t (List.mem_append_right _ ht)
    cases n with
    | text s => simp [strokes, hns]
    | reference t =>
      have ht := h t (List.mem_append_left _ List.mem_cons_self)
      simp [strokes, Stroke.written, ht, hns]
    | block tag body => exact absurd List.mem_cons_self (hflat tag body)

end Node

namespace Template

/-- A template without sections renders alike where its references resolve alike. -/
theorem render_congr_of_flat {template : Template} (hflat : Node.Flat template.nodes) {c d : Tree}
    (h : ∀ t ∈ Node.referencesAll template.nodes,
      Context.resolve [c] t.path = Context.resolve [d] t.path) :
    template.render c = template.render d := by
  have hverify : template.verify c = template.verify d := by
    rw [verify_eq, verify_eq, hflat.outside_eq, Context.firstMissing_congr h]
  rcases hv : template.verify c with m | u
  · rw [render_of_verify_error hv, render_of_verify_error (hverify.symm.trans hv)]
  · rw [render_of_verify hv, render_of_verify (hverify.symm.trans hv),
      Stroke.run_congr (hflat.map_written_strokesAll h)]

end Template

/-- **A text without sections renders to the same output** in a configuration that extends
the first one, if its references need no map. -/
theorem render_extends {source : Text}
    (hsections : ∀ t ∈ (placeholders source).tokens, t.isSection = false) {c d : Tree}
    (h : c.Extends d) {output : Text} (hrender : render source c = .ok output)
    (hfree : ∀ t ∈ (placeholders source).tokens, Context.MapFree [c] t.path) :
    render source d = .ok output := by
  obtain ⟨template, hparse, hflat⟩ := Template.parse_flat hsections
  rcases htemplate : template.render c with m | output'
  · simp [render_of_parse hparse, htemplate] at hrender
  have hsame : template.render c = template.render d := by
    refine Template.render_congr_of_flat hflat fun t ht => ?_
    obtain ⟨v, hv⟩ := Template.exists_resolve_of_render hflat htemplate ht
    rw [Template.references_parse hparse] at ht
    rw [hv, Context.resolve_extends h (hfree t (List.mem_of_mem_filter ht)) hv]
  rw [render_of_parse hparse, ← hsame, ← render_of_parse hparse, hrender]

/-! ### Layers -/

/-- Whether values are kept: one that is no map stands as it was, and a map is a map
still. -/
structure Kept (old new : Option Tree) : Prop where
  value : ∀ v, old = some v → v.isMap = false → new = some v
  map : ∀ v, old = some v → v.isMap = true → ∃ w, new = some w ∧ w.isMap = true

theorem Tree.ExtendsAt.kept {old new : Option Tree} (h : ExtendsAt old new) : Kept old new := by
  refine ⟨fun v hv hmap => ?_, fun v hv hmap => ?_⟩
  · obtain ⟨w, hw, hvw⟩ := h v hv
    rw [hw, hvw.eq_of_not_map hmap]
  · obtain ⟨w, hw, hvw⟩ := h v hv
    exact ⟨w, hw, hvw.isMap_eq.trans hmap⟩

/-- **Appended layers only fill in.**  A text without sections that renders without them, and
without looking up a map on the way, renders to the same output with them.  Every dotted path
that leads to a value without them leads to the same value, or from a map to a map: in the
configuration and where a template looks names up. -/
theorem appended_layers_fill_in {xs : List Tree} (h : ∀ t ∈ xs, t.WellKeyed) (ys : List Tree) :
    (∀ source output,
      (∀ t ∈ (placeholders source).tokens, t.isSection = false) →
      render source (Tree.merge xs) = .ok output →
      (∀ t ∈ (placeholders source).tokens, Context.MapFree [Tree.merge xs] t.path) →
      render source (Tree.merge (xs ++ ys)) = .ok output) ∧
    ∀ path,
      Kept ((Tree.merge xs).lookupDotted path) ((Tree.merge (xs ++ ys)).lookupDotted path) ∧
      Kept (Context.lookup [Tree.merge xs] path) (Context.lookup [Tree.merge (xs ++ ys)] path) := by
  have hmerge := Tree.extends_merge_append h ys
  refine ⟨fun source output hsections hrender hfree =>
    render_extends hsections hmerge hrender hfree, fun path => ⟨?_, ?_⟩⟩
  · exact (hmerge.lookup (segments path)).kept
  · exact (Context.lookup_extends hmerge path).kept

/-! ### A layer behind another one -/

/-- A reference to an entry of `ports` that the value of `role` names. -/
def portSource : Text :=
  "\x7b\x7b ports.\x7b\x7b role \x7d\x7d \x7d\x7d".toList

/-- The path of the reference. -/
def portPath : Path :=
  ⟨"ports.\x7b\x7b role \x7d\x7d".toList,
    [.text "ports.".toList, .ref (.literal "role ".toList), .text " ".toList]⟩

/-- The layer that comes first. -/
def hostLayer : Tree :=
  .map [("role".toList, .string "web".toList),
    ("ports".toList, .map [("web".toList, .string "80".toList)])]

/-- A layer with another role, another port for `web` and one more port. -/
def siteLayer : Tree :=
  .map [("role".toList, .string "db".toList),
    ("ports".toList,
      .map [("web".toList, .string "8080".toList), ("db".toList, .string "5432".toList)])]

/-- The text renders to the port in the first layer, and the map of ports gets an entry. -/
theorem portSource_keeps_port :
    (∀ t ∈ [hostLayer], t.WellKeyed) ∧
      (∀ t ∈ (placeholders portSource).tokens, t.isSection = false) ∧
      (∀ t ∈ (placeholders portSource).tokens,
        Context.MapFree [Tree.merge [hostLayer]] t.path) ∧
      render portSource (Tree.merge ([hostLayer] ++ [siteLayer])) = .ok "80".toList ∧
      ∃ ports, (Tree.merge ([hostLayer] ++ [siteLayer])).lookupDotted "ports".toList = some ports ∧
        ports.isMap = true := by
  have hkeyed : ∀ t ∈ [hostLayer], t.WellKeyed := by
    simp [hostLayer, Tree.WellKeyed, Tree.WellKeyedEntries, Entries.Distinct]
  have htokens : (placeholders portSource).tokens =
      [⟨.composed, portPath, portSource, ⟨1, 0⟩⟩] := by
    decide +kernel
  have hsections : ∀ t ∈ (placeholders portSource).tokens, t.isSection = false := by
    rw [htokens]
    decide
  have hrole : Context.resolve [Tree.merge [hostLayer]] (.literal "role ".toList) =
      .ok (.string "web".toList) := rfl
  have hport : Context.resolve [Tree.merge [hostLayer]] portPath = .ok (.string "80".toList) :=
    rfl
  have hfree : ∀ t ∈ (placeholders portSource).tokens,
      Context.MapFree [Tree.merge [hostLayer]] t.path := by
    rw [htokens, List.forall_mem_singleton]
    refine Context.mapFree_of_refs (fun v hv => ?_) fun q hq => ?_
    · obtain rfl : .string "80".toList = v := Except.ok.inj (hport.symm.trans hv)
      rfl
    · obtain rfl : q = .literal "role ".toList := by simpa [portPath] using hq
      refine Context.mapFree_of_refs (fun v hv => ?_) fun r hr => ?_
      · obtain rfl : .string "web".toList = v := Except.ok.inj (hrole.symm.trans hv)
        rfl
      · simp [Path.literal] at hr
  obtain ⟨hrender, hkept⟩ := appended_layers_fill_in hkeyed [siteLayer]
  exact ⟨hkeyed, hsections, hfree, hrender _ _ hsections (by decide +kernel) hfree,
    (hkept "ports".toList).1.map _ rfl rfl⟩

end ConfigTemplate
