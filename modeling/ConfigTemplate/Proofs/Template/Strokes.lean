/-
What drawing a template writes, stroke by stroke.

A stroke is a piece of literal text or the value of a reference in the context
that it is drawn in.  `Node.strokesAll` lists the strokes of nodes; which they are
depends on the sections that are entered, but not on the values that are written.

* `drawAll_eq_run`: drawing nodes writes their strokes, up to the first that leads
  nowhere, and leaves the context as it was;
* `mem_references_of_mem_strokes`: the strokes are of references of the nodes, in
  the context with what the sections around them have pushed;
* `render_ok_iff`: a template renders exactly if every reference that is drawn
  leads somewhere where it is drawn;
* `render_eq_ok_iff`: and what it renders to is what its strokes write.
-/
import ConfigTemplate.Proofs.Template.References

namespace ConfigTemplate

/-- One thing that drawing writes. -/
inductive Stroke where
  /-- Literal text. -/
  | text (s : Text)
  /-- The value of a reference in a context. -/
  | value (frames : Context) (t : Token)

namespace Stroke

/-- What a stroke writes. -/
def written : Stroke → Except Missing Text
  | text s => .ok s
  | value frames t => (frames.resolve t.path).map Tree.text

/-- The path that leads nowhere in a stroke, if there is one. -/
def missing? : Stroke → Option Missing
  | text _ => none
  | value frames t => frames.missing? t.path

/-- Write strokes after the output so far, up to the first that leads nowhere. -/
def run : List Stroke → (output : Text) → Except Missing Unit × Text
  | [], output => (.ok (), output)
  | k :: ks, output =>
    match k.written with
    | .ok s => run ks (output ++ s)
    | .error m => (.error m, output)

/-- The strokes as an action on a canvas. -/
def drawing (ks : List Stroke) : Drawing Unit := fun c =>
  ((run ks c.output).1, ⟨c.frames, (run ks c.output).2⟩)

theorem run_append (ks ls : List Stroke) (output : Text) :
    run (ks ++ ls) output =
      match run ks output with
      | (.ok (), output') => run ls output'
      | (.error m, output') => (.error m, output') := by
  induction ks generalizing output with
  | nil => rfl
  | cons k ks ih =>
    rw [List.cons_append, run, run]
    rcases k.written with m | s
    · rfl
    · exact ih (output ++ s)

/-- How strokes end is settled by the first that leads nowhere. -/
theorem run_fst (ks : List Stroke) (output : Text) :
    (run ks output).1 = Missing.outcome (ks.findSome? missing?) := by
  induction ks generalizing output with
  | nil => rfl
  | cons k ks ih =>
    rw [run, List.findSome?_cons]
    cases k with
    | text s => exact ih (output ++ s)
    | value frames t =>
      rcases hr : frames.resolve t.path with m | v
      · simp [written, missing?, Context.missing?, hr, Except.map, Missing.outcome]
      · simpa [written, missing?, Context.missing?, hr, Except.map] using ih (output ++ v.text)

/-- Strokes are written to the end exactly if each of them leads somewhere. -/
theorem run_ok_iff {ks : List Stroke} {output : Text} :
    (run ks output).1 = .ok () ↔
      ∀ frames t, .value frames t ∈ ks → ∃ v, frames.resolve t.path = .ok v := by
  rw [run_fst, Missing.outcome_eq_ok_iff, List.findSome?_eq_none_iff]
  constructor
  · intro h frames t hk
    exact Context.missing?_eq_none_iff.mp (h _ hk)
  · rintro h (s | ⟨frames, t⟩) hk
    · rfl
    · exact Context.missing?_eq_none_iff.mpr (h frames t hk)

end Stroke

namespace Drawing

theorem bind_ok {α β : Type} {x : Drawing α} {f : α → Drawing β} {c c' : Canvas} {a : α}
    (h : x c = (.ok a, c')) : (x >>= f) c = f a c' := by
  simp [bind, ExceptT.bind, ExceptT.bindCont, ExceptT.mk, StateT.bind, h]

theorem bind_error {α β : Type} {x : Drawing α} {f : α → Drawing β} {c c' : Canvas}
    {m : Missing} (h : x c = (.error m, c')) : (x >>= f) c = (.error m, c') := by
  simp [bind, ExceptT.bind, ExceptT.bindCont, ExceptT.mk, StateT.bind, h]
  rfl

theorem get_apply (c : Canvas) : (get : Drawing Canvas) c = (.ok c, c) := rfl

theorem resolve_apply (p : Path) (c : Canvas) : resolve p c = (c.frames.resolve p, c) := by
  rw [resolve, bind_ok (get_apply c)]
  rcases c.frames.resolve p with m | v <;> rfl

/-- Strokes one after another. -/
theorem bind_drawing {x : Drawing Unit} {f : Unit → Drawing Unit} {ks ls : List Stroke}
    {frames : Context} {output : Text}
    (hx : x ⟨frames, output⟩ = Stroke.drawing ks ⟨frames, output⟩)
    (hf : ∀ output, f () ⟨frames, output⟩ = Stroke.drawing ls ⟨frames, output⟩) :
    (x >>= f) ⟨frames, output⟩ = Stroke.drawing (ks ++ ls) ⟨frames, output⟩ := by
  unfold Stroke.drawing at hx hf ⊢
  rw [Stroke.run_append]
  rcases hr : Stroke.run ks output with ⟨m | u, output'⟩
  · -- What fails first keeps the rest from being drawn.
    rw [hr] at hx
    exact bind_error hx
  · rw [hr] at hx
    rw [bind_ok hx]
    exact hf output'

theorem within_drawing {t : Tree} {body : Drawing Unit} {ks : List Stroke} {frames : Context}
    {output : Text} (h : body ⟨t :: frames, output⟩ = Stroke.drawing ks ⟨t :: frames, output⟩) :
    within t body ⟨frames, output⟩ = Stroke.drawing ks ⟨frames, output⟩ := by
  simp [within, h, Stroke.drawing]

end Drawing

namespace Node

mutual

/-- The strokes of a node in a context. -/
def strokes (frames : Context) : Node → List Stroke
  | .text s => [.text s]
  | .reference t => [.value frames t]
  | .block tag body =>
    let value := frames.lookup (name tag)
    if tag.kind = .inverted then
      if entered value then [] else strokesAll frames body
    else (rounds value).flatMap fun t => strokesAll (t :: frames) body

/-- The strokes of nodes one after another. -/
def strokesAll (frames : Context) : List Node → List Stroke
  | [] => []
  | n :: ns => strokes frames n ++ strokesAll frames ns

end

@[simp] theorem strokesAll_nil (frames : Context) : strokesAll frames [] = [] := rfl

@[simp] theorem strokesAll_cons (frames : Context) (n : Node) (ns : List Node) :
    strokesAll frames (n :: ns) = n.strokes frames ++ strokesAll frames ns := rfl

@[simp] theorem strokesAll_append (frames : Context) (ms ns : List Node) :
    strokesAll frames (ms ++ ns) = strokesAll frames ms ++ strokesAll frames ns := by
  induction ms with
  | nil => rfl
  | cons m ms ih => rw [List.cons_append, strokesAll_cons, strokesAll_cons, ih, List.append_assoc]

theorem run_literal (frames : Context) (s output : Text) :
    Stroke.run (strokesAll frames (literal s)) output = (.ok (), output ++ s) := by
  unfold literal
  split
  · next hs =>
    obtain rfl : s = [] := by simpa using hs
    rw [List.append_nil]
    rfl
  · rfl

/-- Sections write alike if they look up the same and their bodies write alike. -/
theorem map_written_block_congr {tag tag' : Token} {body body' : List Node}
    {frames frames' : Context} (hkind : tag.kind = tag'.kind)
    (hvalue : frames.lookup (name tag) = frames'.lookup (name tag'))
    (hstay : tag.kind = .inverted →
      (strokesAll frames body).map Stroke.written = (strokesAll frames' body').map Stroke.written)
    (hpush : ∀ t, (strokesAll (t :: frames) body).map Stroke.written =
      (strokesAll (t :: frames') body').map Stroke.written) :
    (strokes frames (.block tag body)).map Stroke.written =
      (strokes frames' (.block tag' body')).map Stroke.written := by
  rw [strokes, strokes, hvalue, ← hkind]
  by_cases hk : tag.kind = .inverted
  · simp only [hk, if_true]
    split
    · rfl
    · exact hstay hk
  · simp only [hk, if_false, List.map_flatMap, hpush]

theorem draw_text (frames : Context) (output s : Text) :
    draw (.text s) ⟨frames, output⟩ = Stroke.drawing [.text s] ⟨frames, output⟩ := rfl

theorem draw_reference (frames : Context) (output : Text) (t : Token) :
    draw (.reference t) ⟨frames, output⟩ = Stroke.drawing [.value frames t] ⟨frames, output⟩ := by
  -- Resolving only reads the canvas.
  have hresolve := Drawing.resolve_apply t.path ⟨frames, output⟩
  rw [draw]
  rcases hr : frames.resolve t.path with m | v
  · rw [hr] at hresolve
    rw [Drawing.bind_error hresolve]
    simp [Stroke.drawing, Stroke.run, Stroke.written, hr, Except.map]
  · rw [hr] at hresolve
    rw [Drawing.bind_ok hresolve]
    simp [Stroke.drawing, Stroke.run, Stroke.written, hr, Except.map]
    rfl

theorem forM_within {body : List Node} {frames : Context}
    (hbody : ∀ frames output,
      drawAll body ⟨frames, output⟩ = Stroke.drawing (strokesAll frames body) ⟨frames, output⟩)
    (items : List Tree) (output : Text) :
    (items.forM fun t => Drawing.within t (drawAll body)) ⟨frames, output⟩ =
      Stroke.drawing (items.flatMap fun t => strokesAll (t :: frames) body) ⟨frames, output⟩ := by
  induction items generalizing output with
  | nil => rfl
  | cons t items ih =>
    rw [List.flatMap_cons]
    exact Drawing.bind_drawing (Drawing.within_drawing (hbody (t :: frames) output)) ih

theorem draw_block {tag : Token} {body : List Node} (frames : Context) (output : Text)
    (hbody : ∀ frames output,
      drawAll body ⟨frames, output⟩ = Stroke.drawing (strokesAll frames body) ⟨frames, output⟩) :
    draw (.block tag body) ⟨frames, output⟩ =
      Stroke.drawing (strokes frames (.block tag body)) ⟨frames, output⟩ := by
  rw [draw, Drawing.bind_ok (Drawing.get_apply _), strokes]
  by_cases hk : tag.kind = .inverted
  · simp only [hk, if_true]
    split
    · rfl
    · exact hbody frames output
  · simp only [hk, if_false]
    exact forM_within hbody _ output

/-- **Drawing nodes writes their strokes**, and leaves the context as it was. -/
theorem drawAll_eq_run (ns : List Node) (frames : Context) (output : Text) :
    drawAll ns ⟨frames, output⟩ = Stroke.drawing (strokesAll frames ns) ⟨frames, output⟩ := by
  induction ns using inductAll generalizing frames output with
  | nil => rfl
  | text s ns ih => exact Drawing.bind_drawing (draw_text frames output s) (ih frames)
  | reference t ns ih => exact Drawing.bind_drawing (draw_reference frames output t) (ih frames)
  | block tag body ns hbody ih =>
    exact Drawing.bind_drawing (draw_block frames output hbody) (ih frames)

/-! ### Which references are drawn -/

/-- What a section draws is drawn by its body, in the context or with one more tree
on it. -/
theorem mem_strokes_block {tag : Token} {body : List Node} {frames : Context} {k : Stroke}
    (h : k ∈ strokes frames (.block tag body)) :
    k ∈ strokesAll frames body ∨ ∃ t, k ∈ strokesAll (t :: frames) body := by
  rw [strokes] at h
  by_cases hk : tag.kind = .inverted
  · simp only [hk, if_true] at h
    split at h
    · exact absurd h List.not_mem_nil
    · exact .inl h
  · simp only [hk, if_false] at h
    obtain ⟨t, -, ht⟩ := List.mem_flatMap.mp h
    exact .inr ⟨t, ht⟩

/-- Every stroke is of a reference of the nodes, and the sections around it have
only pushed trees on the context. -/
theorem mem_references_of_mem_strokes {ns : List Node} {frames frames' : Context} {t : Token}
    (h : .value frames' t ∈ strokesAll frames ns) :
    t ∈ referencesAll ns ∧ ∃ pushed, frames' = pushed ++ frames := by
  induction ns using inductAll generalizing frames with
  | nil => exact absurd h List.not_mem_nil
  | text s ns ih => exact ih (by simpa [strokes] using h)
  | reference u ns ih =>
    rcases List.mem_append.mp h with h | h
    · obtain ⟨rfl, rfl⟩ : frames' = frames ∧ t = u := by simpa [strokes] using h
      exact ⟨List.mem_cons_self, [], rfl⟩
    · obtain ⟨ht, hframes⟩ := ih h
      exact ⟨List.mem_cons_of_mem _ ht, hframes⟩
  | block tag body ns hbody ih =>
    rw [referencesAll_cons, references_block, List.mem_append]
    rcases List.mem_append.mp h with h | h
    · rcases mem_strokes_block h with h | ⟨v, h⟩
      · obtain ⟨ht, hframes⟩ := hbody h
        exact ⟨.inl ht, hframes⟩
      · -- The tree of this round lies under those that the body has pushed.
        obtain ⟨ht, pushed, rfl⟩ := hbody h
        exact ⟨.inl ht, pushed ++ [v], by simp⟩
    · obtain ⟨ht, hframes⟩ := ih h
      exact ⟨.inr ht, hframes⟩

theorem mem_strokes_of_mem_outside {ns : List Node} {frames : Context} {t : Token}
    (h : t ∈ outside ns) : .value frames t ∈ strokesAll frames ns := by
  rw [mem_outside] at h
  induction ns with
  | nil => simp at h
  | cons n ns ih =>
    rw [strokesAll_cons, List.mem_append]
    rcases List.mem_cons.mp h with rfl | h
    · exact .inl (by simp [strokes])
    · exact .inr (ih h)

theorem Flat.frames_eq {ns : List Node} (hns : Flat ns) {frames frames' : Context} {t : Token}
    (h : .value frames' t ∈ strokesAll frames ns) : frames' = frames := by
  induction ns with
  | nil => simp at h
  | cons n ns ih =>
    rcases List.mem_append.mp h with h | h
    · cases n with
      | text s => simp [strokes] at h
      | reference u => exact (by simpa [strokes] using h : frames' = frames ∧ t = u).1
      | block tag body => exact absurd List.mem_cons_self (hns tag body)
    · exact ih hns.tail h

end Node

/-! ### Rendering -/

namespace Template

theorem render_of_verify {template : Template} {config : Tree}
    (h : template.verify config = .ok ()) :
    template.render config =
      match Stroke.run (Node.strokesAll [config] template.nodes) [] with
      | (.ok (), output) => .ok output
      | (.error m, _) => .error m := by
  rw [render, h, Node.drawAll_eq_run]
  rcases hr : Stroke.run (Node.strokesAll [config] template.nodes) [] with ⟨m | u, output⟩ <;>
    simp [Stroke.drawing, hr, bind, Except.bind]

theorem render_of_verify_error {template : Template} {config : Tree} {m : Missing}
    (h : template.verify config = .error m) : template.render config = .error m := by
  rw [render, h]
  rfl

/-- **A template renders exactly if every reference that is drawn leads somewhere**
where it is drawn. -/
theorem render_ok_iff (template : Template) (config : Tree) :
    (∃ output, template.render config = .ok output) ↔
      ∀ frames t, .value frames t ∈ Node.strokesAll [config] template.nodes →
        ∃ v, frames.resolve t.path = .ok v := by
  constructor
  · rintro ⟨output, h⟩
    rcases hv : template.verify config with m | u
    · rw [render_of_verify_error hv] at h
      exact absurd h (by simp)
    · rw [render_of_verify hv] at h
      refine (@Stroke.run_ok_iff _ []).mp ?_
      rcases hr : Stroke.run (Node.strokesAll [config] template.nodes) [] with ⟨m | u, output'⟩
      · rw [hr] at h
        exact absurd h (by simp)
      · rfl
  · intro h
    -- What is verified is also drawn, in the configuration itself.
    have hv : template.verify config = .ok () :=
      (verify_ok_iff template config).mpr fun t ht =>
        h [config] t (Node.mem_strokes_of_mem_outside ht)
    have hrun := (@Stroke.run_ok_iff _ []).mpr h
    rcases hr : Stroke.run (Node.strokesAll [config] template.nodes) [] with ⟨m | u, output⟩
    · rw [hr] at hrun
      exact absurd hrun (by simp)
    · exact ⟨output, by rw [render_of_verify hv, hr]⟩

/-- Without sections, every reference of what renders leads somewhere. -/
theorem exists_resolve_of_render {template : Template} (hflat : Node.Flat template.nodes)
    {config : Tree} {output : Text} (h : template.render config = .ok output) {t : Token}
    (ht : t ∈ Node.referencesAll template.nodes) :
    ∃ v, Context.resolve [config] t.path = .ok v := by
  rw [← hflat.outside_eq] at ht
  exact (render_ok_iff template config).mp ⟨output, h⟩ [config] t
    (Node.mem_strokes_of_mem_outside ht)

/-- **A template renders to what its strokes write**, if they are written to the end. -/
theorem render_eq_ok_iff {template : Template} {config : Tree} {output : Text} :
    template.render config = .ok output ↔
      Stroke.run (Node.strokesAll [config] template.nodes) [] = (.ok (), output) := by
  have hrender : ∀ output', template.render config = .ok output' →
      Stroke.run (Node.strokesAll [config] template.nodes) [] = (.ok (), output') := by
    intro output' h
    rcases hv : template.verify config with m | u
    · rw [render_of_verify_error hv] at h
      cases h
    · rw [render_of_verify hv] at h
      rcases hr : Stroke.run (Node.strokesAll [config] template.nodes) [] with ⟨m | u, written⟩
      · rw [hr] at h
        cases h
      · rw [hr] at h
        rw [Except.ok.inj h]
  refine ⟨hrender output, ?_⟩
  intro hrun
  -- Nothing is missing, so that the template renders to something.
  have hfst := congrArg Prod.fst hrun
  obtain ⟨output', h⟩ := (render_ok_iff template config).mpr (Stroke.run_ok_iff.mp hfst)
  rw [h, (Prod.mk.inj ((hrender output' h).symm.trans hrun)).2]

end Template

end ConfigTemplate
