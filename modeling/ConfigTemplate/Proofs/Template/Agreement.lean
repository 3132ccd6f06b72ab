/-
Two configurations under one template.

Drawing a template reads its configuration only by looking names up.  So two
configurations that agree on the names draw the same, even though the contexts that
are built on them differ.

* `lookup_append_congr`: a name on which two contexts agree leads to the same tree
  behind the same pushed trees;
* `map_written_strokesAll`: nodes write the same in both configurations, stroke by
  stroke;
* `render_congr`: and a template renders to the same output or fails alike.

Design notes: the two contexts always have the same trees on top of the two
configurations, because what a section pushes has been looked up.  Only `.` leads to
a configuration itself, so that `Node.Guarded` keeps it inside sections that push.
-/
import Mathlib.Data.List.Basic
import ConfigTemplate.Proofs.Template.Shadowing
import ConfigTemplate.Proofs.Template.Strokes

namespace ConfigTemplate

namespace Context

/-- A name on which two contexts agree leads to the same tree behind pushed trees. -/
theorem lookup_append_congr {frames frames' : Context} {path : Text}
    (h : frames.lookup path = frames'.lookup path) (pushed : Context) :
    lookup (pushed ++ frames) path = lookup (pushed ++ frames') path := by
  by_cases hp : path = current
  · rcases pushed with _ | ⟨t, pushed⟩
    · exact h
    · simp [hp]
  · rw [lookup_append _ _ hp, lookup_append _ _ hp, h]

theorem resolve_literal (frames : Context) (u : Text) :
    frames.resolve (.literal u) = frames.find u.trim :=
  resolve_of_resolvePath (resolvePath_literal frames u)

/-- A plain path is resolved by looking it up as it is written. -/
theorem resolve_congr {frames frames' : Context} {p : Path} (hplain : ∃ u, p = .literal u)
    (h : frames.lookup p.raw = frames'.lookup p.raw) :
    frames.resolve p = frames'.resolve p := by
  obtain ⟨u, rfl⟩ := hplain
  have hraw : (Path.literal u).raw = u.trim := rfl
  rw [hraw] at h
  rw [resolve_literal, resolve_literal, find, find, h]

theorem firstMissing_congr {frames frames' : Context} {ts : List Token}
    (h : ∀ t ∈ ts, frames.resolve t.path = frames'.resolve t.path) :
    frames.firstMissing ts = frames'.firstMissing ts := by
  induction ts with
  | nil => rfl
  | cons t ts ih =>
    have ht : frames.missing? t.path = frames'.missing? t.path := by
      rw [missing?, missing?, h t List.mem_cons_self]
    have hts := ih fun u hu => h u (List.mem_cons_of_mem _ hu)
    rw [firstMissing, firstMissing] at hts
    rw [firstMissing, firstMissing, List.findSome?_cons, List.findSome?_cons, ht, hts]

end Context

/-- How strokes are written depends on nothing but what each of them writes. -/
theorem Stroke.run_congr {ks ls : List Stroke} (h : ks.map written = ls.map written)
    (output : Text) : run ks output = run ls output := by
  induction ks generalizing ls output with
  | nil =>
    obtain rfl : ls = [] := by simpa using h
    rfl
  | cons k ks ih =>
    rcases ls with _ | ⟨l, ls⟩
    · simp at h
    · rw [List.map_cons, List.map_cons, List.cons.injEq] at h
      rw [run, run, h.1]
      rcases l.written with m | s
      · rfl
      · exact ih h.2 (output ++ s)

namespace Node

mutual

/-- Whether every reference to the innermost tree stands in a section that pushes
one. -/
def Guarded : Node → Prop
  | .text _ => True
  | .reference t => t.path.raw ≠ Context.current
  | .block tag body => tag.kind = .inverted → GuardedAll body

/-- Every one of the nodes is guarded. -/
def GuardedAll : List Node → Prop
  | [] => True
  | n :: ns => Guarded n ∧ GuardedAll ns

end

theorem GuardedAll.raw_ne_current {ns : List Node} {t : Token} (h : GuardedAll ns)
    (ht : .reference t ∈ ns) : t.path.raw ≠ Context.current := by
  induction ns with
  | nil => simp at ht
  | cons n ns ih =>
    rcases List.mem_cons.mp ht with rfl | ht
    · exact h.1
    · exact ih h.2 ht

theorem mem_tokensAll {ns : List Node} {t : Token} (h : .reference t ∈ ns) :
    t ∈ tokensAll ns := by
  induction ns with
  | nil => simp at h
  | cons n ns ih =>
    rw [tokensAll_cons, List.mem_append]
    rcases List.mem_cons.mp h with rfl | h
    · exact .inl List.mem_cons_self
    · exact .inr (ih h)

/-- Whether two configurations agree on the names that nodes look up.  Every path is
plain, and nothing is asked of a reference to the innermost tree. -/
structure Agree (c d : Tree) (ns : List Node) : Prop where
  plain : ∀ t ∈ tokensAll ns, ∃ u, t.path = .literal u
  same : ∀ t ∈ tokensAll ns, t.opens = true ∨ t.path.raw ≠ Context.current →
    Context.lookup [c] t.path.raw = Context.lookup [d] t.path.raw

section

variable {c d : Tree}

theorem Agree.mono {ms ns : List Node} (h : Agree c d ns) (hsub : tokensAll ms ⊆ tokensAll ns) :
    Agree c d ms :=
  ⟨fun t ht => h.plain t (hsub ht), fun t ht => h.same t (hsub ht)⟩

theorem Agree.tail {n : Node} {ns : List Node} (h : Agree c d (n :: ns)) : Agree c d ns :=
  h.mono (List.subset_append_right _ _)

theorem Agree.body {tag : Token} {body ns : List Node} (h : Agree c d (.block tag body :: ns)) :
    Agree c d body :=
  h.mono fun _ ht => List.mem_append_left _ (List.mem_cons_of_mem _ ht)

/-- A reference resolves alike, if its context has a pushed tree or it is not to the
innermost one. -/
theorem Agree.resolve_eq {ns : List Node} {t : Token} (h : Agree c d ns)
    (ht : t ∈ tokensAll ns) {pushed : Context}
    (hguard : pushed = [] → t.path.raw ≠ Context.current) :
    Context.resolve (pushed ++ [c]) t.path = Context.resolve (pushed ++ [d]) t.path := by
  refine Context.resolve_congr (h.plain t ht) ?_
  by_cases hraw : t.path.raw = Context.current
  · rcases pushed with _ | ⟨u, pushed⟩
    · exact absurd hraw (hguard rfl)
    · simp [hraw]
  · exact Context.lookup_append_congr (h.same t ht (.inr hraw)) pushed

/-- **Nodes write the same in two configurations that agree** on the names that they
look up, behind the same pushed trees. -/
theorem map_written_strokesAll {ns : List Node} (hproper : ProperAll ns) (h : Agree c d ns)
    {pushed : Context} (hguard : pushed = [] → GuardedAll ns) :
    (strokesAll (pushed ++ [c]) ns).map Stroke.written =
      (strokesAll (pushed ++ [d]) ns).map Stroke.written := by
  induction ns using inductAll generalizing pushed with
  | nil => rfl
  | text s ns ih =>
    have hns := ih hproper.2 h.tail fun hp => (hguard hp).2
    simp [strokes, hns]
  | reference t ns ih =>
    have hns := ih hproper.2 h.tail fun hp => (hguard hp).2
    have ht := h.resolve_eq List.mem_cons_self fun hp => (hguard hp).1
    simp [strokes, Stroke.written, ht, hns]
  | block tag body ns hbody ih =>
    have hns := ih hproper.2 h.tail fun hp => (hguard hp).2
    -- What the section looks up is the same, so it pushes the same trees.
    have hvalue : Context.lookup (pushed ++ [c]) (name tag) =
        Context.lookup (pushed ++ [d]) (name tag) :=
      Context.lookup_append_congr (h.same tag List.mem_cons_self (.inl hproper.1.1)) pushed
    rw [strokesAll_cons, strokesAll_cons, List.map_append, List.map_append, hns]
    congr 1
    refine map_written_block_congr rfl hvalue (fun hk => ?_) fun t => ?_
    · exact hbody hproper.1.2 h.body fun hp => (hguard hp).1 hk
    · have hpushed : t :: pushed = [] → GuardedAll body := fun hp =>
        absurd hp (List.cons_ne_nil t pushed)
      exact hbody hproper.1.2 h.body hpushed

end

end Node

namespace Template

/-- What is checked before rendering is the same in configurations that agree. -/
theorem verify_congr {template : Template} {c d : Tree} (h : Node.Agree c d template.nodes)
    (hguard : Node.GuardedAll template.nodes) : template.verify c = template.verify d := by
  rw [verify_eq, verify_eq]
  refine congrArg Missing.outcome (Context.firstMissing_congr fun t ht => ?_)
  have hmem : .reference t ∈ template.nodes := Node.mem_outside.mp ht
  have hname : ([] : Context) = [] → t.path.raw ≠ Context.current := fun _ =>
    hguard.raw_ne_current hmem
  exact h.resolve_eq (Node.mem_tokensAll hmem) hname

/-- **A template renders alike in two configurations that agree** on the names that it
looks up. -/
theorem render_congr {template : Template} {c d : Tree}
    (hproper : Node.ProperAll template.nodes) (h : Node.Agree c d template.nodes)
    (hguard : Node.GuardedAll template.nodes) : template.render c = template.render d := by
  have hverify := verify_congr h hguard
  rcases hv : template.verify d with m | u
  · rw [render_of_verify_error hv, render_of_verify_error (hverify.trans hv)]
  · have hstrokes := @Node.map_written_strokesAll c d _ hproper h [] fun _ => hguard
    rw [render_of_verify hv, render_of_verify (hverify.trans hv)]
    simp only [List.nil_append] at hstrokes
    rw [Stroke.run_congr hstrokes]

end Template

end ConfigTemplate
