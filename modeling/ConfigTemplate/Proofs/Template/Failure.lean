/-
Where rendering fails.

A template is verified first and drawn then.  Drawing goes down into sections and comes
back with the context that it began with, even from a body that fails, so that what
verifying found outside the sections is also what drawing finds there.

* `onlyAppends_drawAll`: drawing leaves the context as it was and only adds to the
  output, whatever its outcome;
* `Reaches`: the places that drawing comes to, with the number of sections around them;
* `drawAll_error_iff`: drawing fails exactly at a place that it reaches, with what is
  missing there;
* `passes_agree`: what verifying misses is what rendering fails with, and behind it
  rendering fails only inside sections.
-/
import ConfigTemplate.Proofs.Template.Strokes

namespace ConfigTemplate

/-! ### The canvas behind a drawing -/

/-- Whether an action, however it ends, leaves the context as it was and the output there
was where it was. -/
def Drawing.OnlyAppends (x : Drawing Unit) : Prop :=
  ∀ c, (x c).2.frames = c.frames ∧ c.output <+: (x c).2.output

theorem Stroke.prefix_run (ks : List Stroke) (output : Text) : output <+: (run ks output).2 := by
  induction ks generalizing output with
  | nil => exact List.prefix_rfl
  | cons k ks ih =>
    rw [run]
    rcases k.written with m | s
    · exact List.prefix_rfl
    · exact (List.prefix_append output s).trans (ih (output ++ s))

theorem Stroke.onlyAppends_of_eq {x : Drawing Unit} {ks : Context → List Stroke}
    (h : ∀ frames output, x ⟨frames, output⟩ = drawing (ks frames) ⟨frames, output⟩) :
    Drawing.OnlyAppends x := by
  rintro ⟨frames, output⟩
  rw [h]
  exact ⟨rfl, prefix_run (ks frames) output⟩

namespace Node

theorem onlyAppends_drawAll (ns : List Node) : Drawing.OnlyAppends (drawAll ns) :=
  Stroke.onlyAppends_of_eq fun frames output => drawAll_eq_run ns frames output

theorem onlyAppends_draw (n : Node) : Drawing.OnlyAppends (draw n) := by
  cases n with
  | text s => exact Stroke.onlyAppends_of_eq fun frames output => draw_text frames output s
  | reference t =>
    exact Stroke.onlyAppends_of_eq fun frames output => draw_reference frames output t
  | block tag body =>
    exact Stroke.onlyAppends_of_eq fun frames output =>
      draw_block frames output (drawAll_eq_run body)

/-! ### Places that drawing comes to -/

/-- `Reaches c ns depth c' t`: drawing the nodes on the canvas `c` comes to the reference
`t` on the canvas `c'`, in the bodies of `depth` sections that it has entered. -/
inductive Reaches : Canvas → List Node → (depth : Nat) → Canvas → Token → Prop
  | here {c : Canvas} {t : Token} {ns : List Node} : Reaches c (.reference t :: ns) 0 c t
  | past {c c' c'' : Canvas} {n : Node} {ns : List Node} {depth : Nat} {t : Token}
      (hn : draw n c = (.ok (), c')) (h : Reaches c' ns depth c'' t) :
      Reaches c (n :: ns) depth c'' t
  | inverted {c c' : Canvas} {tag t : Token} {body ns : List Node} {depth : Nat}
      (htag : tag.kind = .inverted) (hvalue : entered (c.frames.lookup (name tag)) = false)
      (h : Reaches c body depth c' t) : Reaches c (.block tag body :: ns) (depth + 1) c' t
  | round {c c' c'' : Canvas} {tag t : Token} {body ns : List Node} {depth : Nat} {u : Tree}
      {earlier later : List Tree} (htag : tag.kind ≠ .inverted)
      (hrounds : rounds (c.frames.lookup (name tag)) = earlier ++ u :: later)
      (hearlier : (earlier.forM fun u => Drawing.within u (drawAll body)) c = (.ok (), c'))
      (h : Reaches ⟨u :: c'.frames, c'.output⟩ body depth c'' t) :
      Reaches c (.block tag body :: ns) (depth + 1) c'' t

/-- Outside sections, the place is one of the nodes, and the context is what it was. -/
theorem Reaches.outside {c c' : Canvas} {ns : List Node} {t : Token}
    (h : Reaches c ns 0 c' t) : .reference t ∈ ns ∧ c'.frames = c.frames := by
  generalize hd : 0 = depth at h
  induction h with
  | here => exact ⟨List.mem_cons_self, rfl⟩
  | @past c c₁ c₂ n ns depth t hn _ ih =>
    obtain ⟨hmem, hframes⟩ := ih hd
    have hkept := (onlyAppends_draw n c).1
    rw [hn] at hkept
    exact ⟨List.mem_cons_of_mem _ hmem, hframes.trans hkept⟩
  | inverted => simp at hd
  | round => simp at hd

end Node

/-! ### How an action fails -/

namespace Drawing

/-- One action behind another fails where either does. -/
theorem bind_error_iff {x : Drawing Unit} {f : Unit → Drawing Unit} {c : Canvas} {m : Missing} :
    ((x >>= f) c).1 = .error m ↔
      (x c).1 = .error m ∨ ∃ c', x c = (.ok (), c') ∧ (f () c').1 = .error m := by
  rcases hx : x c with ⟨e | ⟨⟩, c'⟩
  · rw [bind_error hx]
    refine ⟨.inl, fun h => h.resolve_right ?_⟩
    rintro ⟨c'', h, -⟩
    cases h
  · rw [bind_ok hx]
    refine ⟨fun h => .inr ⟨c', rfl, h⟩, ?_⟩
    rintro (h | ⟨c'', h, hf⟩)
    · cases h
    · obtain rfl : c' = c'' := congrArg Prod.snd h
      exact hf

/-- Actions one after another fail at the first of them that does. -/
theorem forM_error_iff {items : List Tree} {f : Tree → Drawing Unit} {c : Canvas} {m : Missing} :
    (items.forM f c).1 = .error m ↔
      ∃ earlier u later c', items = earlier ++ u :: later ∧
        earlier.forM f c = (.ok (), c') ∧ (f u c').1 = .error m := by
  induction items generalizing c with
  | nil =>
    refine iff_of_false (fun h => ?_) (by simp)
    cases h
  | cons v items ih =>
    have hcons : ∀ us : List Tree, (v :: us).forM f = (f v >>= fun _ => us.forM f) := fun _ => rfl
    rw [hcons, bind_error_iff]
    constructor
    · rintro (h | ⟨c', hv, h⟩)
      · exact ⟨[], v, items, c, rfl, rfl, h⟩
      · obtain ⟨earlier, u, later, c'', rfl, hearlier, hu⟩ := ih.mp h
        exact ⟨v :: earlier, u, later, c'', rfl, by rw [hcons, bind_ok hv, hearlier], hu⟩
    · rintro ⟨earlier, u, later, c', hsplit, hearlier, hu⟩
      rcases earlier with _ | ⟨w, earlier⟩
      · obtain ⟨rfl, rfl⟩ := List.cons.inj hsplit
        obtain rfl : c = c' := congrArg Prod.snd hearlier
        exact .inl hu
      · obtain ⟨rfl, hrest⟩ := List.cons.inj hsplit
        rw [hcons] at hearlier
        rcases hv : f v c with ⟨e | ⟨⟩, c₁⟩
        · rw [bind_error hv] at hearlier
          cases hearlier
        · rw [bind_ok hv] at hearlier
          exact .inr ⟨c₁, rfl, ih.mpr ⟨earlier, u, later, c', hrest, hearlier, hu⟩⟩

theorem within_fst (u : Tree) (body : Drawing Unit) (c : Canvas) :
    (within u body c).1 = (body ⟨u :: c.frames, c.output⟩).1 := rfl

end Drawing

namespace Node

theorem draw_text_ne_error (s : Text) (c : Canvas) (m : Missing) :
    (draw (.text s) c).1 ≠ .error m := by
  intro h
  cases h

theorem draw_reference_error_iff {t : Token} {c : Canvas} {m : Missing} :
    (draw (.reference t) c).1 = .error m ↔ c.frames.resolve t.path = .error m := by
  have hdraw := draw_reference c.frames c.output t
  rw [hdraw, Stroke.drawing, Stroke.run, Stroke.written]
  rcases c.frames.resolve t.path with e | v <;> simp [Except.map, Stroke.run]

theorem draw_inverted {tag : Token} (htag : tag.kind = .inverted) (body : List Node)
    (c : Canvas) :
    draw (.block tag body) c =
      if entered (c.frames.lookup (name tag)) then (.ok (), c) else drawAll body c := by
  rw [draw, Drawing.bind_ok (Drawing.get_apply c)]
  simp only [htag, if_true]
  split
  · rfl
  · rfl

theorem draw_rounds {tag : Token} (htag : tag.kind ≠ .inverted) (body : List Node) (c : Canvas) :
    draw (.block tag body) c =
      ((rounds (c.frames.lookup (name tag))).forM fun u =>
        Drawing.within u (drawAll body)) c := by
  rw [draw, Drawing.bind_ok (Drawing.get_apply c)]
  simp only [htag, if_false]

/-- A place that drawing reaches makes it fail if nothing is found there. -/
theorem Reaches.drawAll_error {c c' : Canvas} {ns : List Node} {depth : Nat} {t : Token}
    {m : Missing} (h : Reaches c ns depth c' t) (hm : c'.frames.resolve t.path = .error m) :
    (drawAll ns c).1 = .error m := by
  induction h with
  | here =>
    rw [drawAll, Drawing.bind_error_iff]
    exact .inl (draw_reference_error_iff.mpr hm)
  | past hn _ ih =>
    rw [drawAll, Drawing.bind_error_iff]
    exact .inr ⟨_, hn, ih hm⟩
  | inverted htag hvalue _ ih =>
    rw [drawAll, Drawing.bind_error_iff, draw_inverted htag, hvalue]
    exact .inl (ih hm)
  | @round c c₁ c₂ tag t body ns depth u earlier later htag hrounds hearlier _ ih =>
    rw [drawAll, Drawing.bind_error_iff, draw_rounds htag]
    refine .inl (Drawing.forM_error_iff.mpr ⟨earlier, u, later, c₁, hrounds, hearlier, ?_⟩)
    rw [Drawing.within_fst]
    exact ih hm

/-- **Drawing fails exactly at a place that it reaches**, with what is missing there. -/
theorem drawAll_error_iff {ns : List Node} {c : Canvas} {m : Missing} :
    (drawAll ns c).1 = .error m ↔
      ∃ depth c' t, Reaches c ns depth c' t ∧ c'.frames.resolve t.path = .error m := by
  refine ⟨fun h => ?_, fun ⟨_, _, _, h, hm⟩ => h.drawAll_error hm⟩
  -- What fails behind a node is reached past it, so only the nodes themselves are left.
  have hpast : ∀ {n : Node} {ns : List Node} {c c' : Canvas}, draw n c = (.ok (), c') →
      (∃ depth c'' t, Reaches c' ns depth c'' t ∧ c''.frames.resolve t.path = .error m) →
      ∃ depth c'' t, Reaches c (n :: ns) depth c'' t ∧ c''.frames.resolve t.path = .error m := by
    rintro n ns c c' hn ⟨depth, c'', t, h, hm⟩
    exact ⟨depth, c'', t, .past hn h, hm⟩
  induction ns using inductAll generalizing c with
  | nil => cases h
  | text s ns ih =>
    rw [drawAll, Drawing.bind_error_iff] at h
    rcases h with h | ⟨c', hn, h⟩
    · exact absurd h (draw_text_ne_error s c m)
    · exact hpast hn (ih h)
  | reference t ns ih =>
    rw [drawAll, Drawing.bind_error_iff] at h
    rcases h with h | ⟨c', hn, h⟩
    · exact ⟨0, c, t, .here, draw_reference_error_iff.mp h⟩
    · exact hpast hn (ih h)
  | block tag body ns hbody ih =>
    rw [drawAll, Drawing.bind_error_iff] at h
    rcases h with h | ⟨c', hn, h⟩
    · by_cases htag : tag.kind = .inverted
      · rw [draw_inverted htag] at h
        rcases hvalue : entered (c.frames.lookup (name tag)) with _ | _
        · rw [hvalue] at h
          obtain ⟨depth, c', t, hreach, hm⟩ := hbody h
          exact ⟨depth + 1, c', t, .inverted htag hvalue hreach, hm⟩
        · rw [hvalue] at h
          cases h
      · rw [draw_rounds htag, Drawing.forM_error_iff] at h
        obtain ⟨earlier, u, later, c', hrounds, hearlier, hu⟩ := h
        rw [Drawing.within_fst] at hu
        obtain ⟨depth, c'', t, hreach, hm⟩ := hbody hu
        exact ⟨depth + 1, c'', t, .round htag hrounds hearlier hreach, hm⟩
    · exact hpast hn (ih h)

end Node

/-! ### The two passes -/

namespace Template

theorem render_error_iff_of_verify {template : Template} {config : Tree}
    (h : template.verify config = .ok ()) {m : Missing} :
    template.render config = .error m ↔
      (Node.drawAll template.nodes ⟨[config], []⟩).1 = .error m := by
  rw [render, h]
  rcases Node.drawAll template.nodes ⟨[config], []⟩ with ⟨e | u, c⟩ <;>
    simp [bind, Except.bind]

/-- What is verified is found again where it is drawn. -/
theorem exists_resolve_of_reaches {template : Template} {config : Tree} {c : Canvas} {t : Token}
    (hverify : template.verify config = .ok ())
    (h : Node.Reaches ⟨[config], []⟩ template.nodes 0 c t) :
    ∃ v, c.frames.resolve t.path = .ok v := by
  obtain ⟨hmem, hframes⟩ := h.outside
  rw [hframes]
  exact (verify_ok_iff template config).mp hverify t (Node.mem_outside.mpr hmem)

end Template

/-- **The two passes agree.**  Drawing nodes, and a section among them, leaves the context
as it was and only adds to the output, whether it fails or not.  So what a template misses
when it is verified is what it fails to render with.  If it misses nothing, no reference
outside the sections fails where drawing comes to it, and rendering fails exactly with what
is missing at a reference that drawing reaches in the body of an entered section. -/
theorem passes_agree :
    (∀ ns, Drawing.OnlyAppends (Node.drawAll ns)) ∧
    (∀ tag body, Drawing.OnlyAppends (Node.draw (.block tag body))) ∧
    ∀ (template : Template) (config : Tree),
      (∀ m, template.verify config = .error m → template.render config = .error m) ∧
      (template.verify config = .ok () →
        (∀ c t, Node.Reaches ⟨[config], []⟩ template.nodes 0 c t →
          ∃ v, c.frames.resolve t.path = .ok v) ∧
        ∀ m, template.render config = .error m ↔
          ∃ depth c t, Node.Reaches ⟨[config], []⟩ template.nodes (depth + 1) c t ∧
            c.frames.resolve t.path = .error m) := by
  refine ⟨Node.onlyAppends_drawAll, fun tag body => Node.onlyAppends_draw _,
    fun template config => ⟨fun m => Template.render_of_verify_error, fun hverify =>
      ⟨fun c t => Template.exists_resolve_of_reaches hverify, fun m => ?_⟩⟩⟩
  rw [Template.render_error_iff_of_verify hverify, Node.drawAll_error_iff]
  constructor
  · rintro ⟨depth, c, t, hreach, hm⟩
    cases depth with
    | zero =>
      obtain ⟨v, hv⟩ := Template.exists_resolve_of_reaches hverify hreach
      rw [hv] at hm
      cases hm
    | succ depth => exact ⟨depth, c, t, hreach, hm⟩
  · rintro ⟨depth, c, t, hreach, hm⟩
    exact ⟨depth + 1, c, t, hreach, hm⟩

/-! ### References inside and outside a section -/

/-- A section over `s` with a reference to `x`. -/
def innerTemplate : Template :=
  ⟨[.block ⟨.opening, .literal "s".toList, "\x7b\x7b#s\x7d\x7d".toList, ⟨1, 0⟩⟩
    [.reference ⟨.name, .literal "x".toList, "\x7b\x7bx\x7d\x7d".toList, ⟨1, 6⟩⟩]]⟩

/-- The same section, with a reference to `y` behind it. -/
def outerTemplate : Template :=
  ⟨innerTemplate.nodes ++
    [.reference ⟨.name, .literal "y".toList, "\x7b\x7by\x7d\x7d".toList, ⟨1, 17⟩⟩]⟩

/-- There is an `s`, but no `x` and no `y`. -/
def innerConfig : Tree :=
  .map [("s".toList, .string "z".toList)]

/-- Rendering fails inside the section if nothing is missing outside it, and otherwise with
what is missing there, even behind the section. -/
theorem fails_inside_and_outside :
    innerTemplate.verify innerConfig = .ok () ∧
      innerTemplate.render innerConfig = .error ⟨"x".toList⟩ ∧
      (∃ depth c t, Node.Reaches ⟨[innerConfig], []⟩ innerTemplate.nodes (depth + 1) c t ∧
        c.frames.resolve t.path = .error ⟨"x".toList⟩) ∧
      outerTemplate.verify innerConfig = .error ⟨"y".toList⟩ ∧
      outerTemplate.render innerConfig = .error ⟨"y".toList⟩ := by
  have hverify : innerTemplate.verify innerConfig = .ok () := rfl
  have hrender : innerTemplate.render innerConfig = .error ⟨"x".toList⟩ := rfl
  have houter : outerTemplate.verify innerConfig = .error ⟨"y".toList⟩ := rfl
  obtain ⟨-, -, hpasses⟩ := passes_agree
  obtain ⟨-, hdrawing⟩ := hpasses innerTemplate innerConfig
  exact ⟨hverify, hrender, ((hdrawing hverify).2 _).mp hrender, houter,
    (hpasses outerTemplate innerConfig).1 _ houter⟩

end ConfigTemplate
