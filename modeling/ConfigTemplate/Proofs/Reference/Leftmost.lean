/-
The leftmost reading of a text.

A language of references says which texts are references and what they are.
`Leftmost` reads a text with a language and no recogniser: each reference begins
at the first place behind the one before it where any reference of the language
begins.

* `Recognises.unique`: if a recogniser knows a language, at most one of its
  references begins a text;
* `leftmost_iff`: and scanning with it finds the leftmost reading and no other.

Design notes: a reading has no recogniser in it, so `Leftmost` speaks of what can
be seen of a token: its kind, its path as written, its text and its place.
-/
import Mathlib.Data.List.Basic
import ConfigTemplate.Proofs.Reference.Scanning

namespace ConfigTemplate

/-- What can be seen of a reference, apart from its place. -/
structure Shape where
  kind : Kind
  /-- The path as written. -/
  raw : Text
  text : Text

/-- What can be seen of a token. -/
structure Sighting where
  kind : Kind
  raw : Text
  text : Text
  line : Nat
  start : Nat
  stop : Nat

/-- The shape of a lexeme. -/
def Lexeme.shape (x : Lexeme) : Shape :=
  ⟨x.kind, x.path.raw, x.text⟩

@[simp] theorem Lexeme.text_shape (x : Lexeme) : x.shape.text = x.text := rfl

/-- What can be seen of a token. -/
def Token.sighting (t : Token) : Sighting :=
  ⟨t.kind, t.path.raw, t.text, t.line, t.start, t.stop⟩

namespace Shape

/-- The reference, seen behind the text `before`: on the line after as many
newlines as there are, and spanning the bytes of its text. -/
def sighting (x : Shape) (before : Text) : Sighting :=
  ⟨x.kind, x.raw, x.text, 1 + before.newlines, before.byteLength, (before ++ x.text).byteLength⟩

/-- Whether a reference of the language begins a text. -/
def Begins (language : Shape → Prop) (s : Text) : Prop :=
  ∃ x, language x ∧ x.text <+: s

end Shape

/-- `Leftmost language before rest ts`: behind the text `before`, the references
of `rest` are `ts`, if each begins as early as any reference can. -/
inductive Leftmost (language : Shape → Prop) : (before rest : Text) → List Sighting → Prop
  | done {before rest : Text} (h : ∀ u v, rest = u ++ v → ¬ Shape.Begins language v) :
      Leftmost language before rest []
  | next {before gap rest : Text} {x : Shape} {ts : List Sighting}
      (hgap : ∀ u v, gap = u ++ v → v ≠ [] → ¬ Shape.Begins language (v ++ (x.text ++ rest)))
      (hx : language x) (h : Leftmost language (before ++ gap ++ x.text) rest ts) :
      Leftmost language before (gap ++ (x.text ++ rest)) (x.sighting (before ++ gap) :: ts)

/-- A recogniser knows a language if it finds in front of a text exactly the
references of the language, none of which is empty. -/
structure Recogniser.Recognises (recognise : Recogniser) (language : Shape → Prop) : Prop where
  nonempty : ∀ {x}, language x → x.text ≠ []
  sound : ∀ {s l}, recognise s = some l → language l.shape ∧ l.text <+: s
  complete : ∀ {s x}, language x → x.text <+: s → ∃ l, recognise s = some l ∧ l.shape = x

section

variable {recognise : Recogniser} {language : Shape → Prop}

namespace Recogniser.Recognises

theorem unique (h : recognise.Recognises language) {s : Text} {x y : Shape} (hx : language x)
    (hy : language y) (hxs : x.text <+: s) (hys : y.text <+: s) : x = y := by
  obtain ⟨l, hl, rfl⟩ := h.complete hx hxs
  obtain ⟨m, hm, rfl⟩ := h.complete hy hys
  rw [hl, Option.some.injEq] at hm
  rw [hm]

theorem eq_none_iff (h : recognise.Recognises language) {s : Text} :
    recognise s = none ↔ ¬ Shape.Begins language s := by
  constructor
  · rintro hs ⟨x, hx, hxs⟩
    obtain ⟨l, hl, -⟩ := h.complete hx hxs
    simp [hs] at hl
  · intro hs
    rcases hl : recognise s with _ | l
    · rfl
    · exact absurd ⟨l.shape, h.sound hl⟩ hs

end Recogniser.Recognises

theorem sighting_token (l : Lexeme) (before : Text) :
    (l.token (Mark.start.past before)).sighting = l.shape.sighting before := by
  simp [Token.sighting, Lexeme.token, Shape.sighting, Lexeme.shape, Token.line, Token.start,
    Token.stop, Mark.past_eq, Mark.start]

theorem tokens_scanFrom_gap {m : Mark} {gap rest : Text}
    (h : ∀ u v, gap = u ++ v → v ≠ [] → recognise (v ++ rest) = none) :
    (scanFrom recognise m 0 (gap ++ rest)).tokens =
      (scanFrom recognise (m.past gap) 0 rest).tokens := by
  induction gap generalizing m with
  | nil => rfl
  | cons c gap ih =>
    have hc : recognise (c :: (gap ++ rest)) = none := h [] (c :: gap) rfl (by simp)
    rw [List.cons_append, scanFrom, hc, Segments.tokens_cons, Mark.past_cons]
    exact ih fun u v huv hv => h (c :: u) v (by rw [huv, List.cons_append]) hv

theorem tokens_scanFrom_found {m : Mark} {l : Lexeme} {rest : Text} (hne : l.text ≠ [])
    (hl : recognise (l.text ++ rest) = some l) :
    (scanFrom recognise m 0 (l.text ++ rest)).tokens =
      l.token m :: (scanFrom recognise (m.past l.text) 0 rest).tokens := by
  rw [scanFrom_found hne hl, Segments.tokens]

/-- A character at which nothing begins makes the first gap longer. -/
theorem Leftmost.cons {before s : Text} {c : Char} {ts : List Sighting}
    (hc : ¬ Shape.Begins language (c :: s)) (h : Leftmost language (before ++ [c]) s ts) :
    Leftmost language before (c :: s) ts := by
  cases h with
  | done hd =>
    refine .done fun u v huv => ?_
    rcases u with _ | ⟨d, u⟩
    · rw [List.nil_append] at huv
      exact huv ▸ hc
    · exact hd u v (List.cons.inj huv).2
  | @next _ gap rest x ts hgap hx hts =>
    have hnext := @Leftmost.next language before (c :: gap) rest x ts
    rw [List.append_assoc before [c] gap, List.singleton_append] at hts ⊢
    -- What begins in the longer gap begins at its first character or behind it.
    refine hnext (fun u v huv hv => ?_) hx hts
    rcases u with _ | ⟨d, u⟩
    · rw [List.nil_append] at huv
      exact huv ▸ hc
    · exact hgap u v (List.cons.inj huv).2 hv

/-- What scanning finds is a leftmost reading. -/
theorem leftmost_scanFrom (h : recognise.Recognises language) (before s : Text) :
    Leftmost language before s
      ((scanFrom recognise (Mark.start.past before) 0 s).tokens.map Token.sighting) := by
  -- Behind a reference the rest is shorter by all of it, so the induction is on the length.
  generalize hn : s.length = n
  induction n using Nat.strongRecOn generalizing s before with
  | ind n ih =>
    rcases s with _ | ⟨c, s⟩
    · refine .done fun u v huv hv => ?_
      obtain ⟨x, hx, hxs⟩ := hv
      rw [(List.append_eq_nil_iff.mp huv.symm).2, List.prefix_nil] at hxs
      exact h.nonempty hx hxs
    rcases hl : recognise (c :: s) with _ | l
    · have hrest := ih s.length (by simp [← hn]) (before ++ [c]) s rfl
      rw [Mark.past_append, Mark.past_cons, Mark.past_nil] at hrest
      rw [scanFrom, hl, Segments.tokens_cons]
      exact hrest.cons (h.eq_none_iff.mp hl)
    · obtain ⟨hlang, rest, hrest⟩ := h.sound hl
      have hne := h.nonempty hlang
      have hlen : rest.length < n := by
        have := congrArg List.length hrest
        have := List.length_pos_iff.mpr hne
        simp only [Lexeme.shape, List.length_append, List.length_cons] at *
        omega
      rw [← hrest] at hl ⊢
      rw [tokens_scanFrom_found hne hl, List.map_cons, sighting_token, ← Mark.past_append]
      have hts := ih rest.length hlen (before ++ l.text) rest rfl
      have hnext := @Leftmost.next language before [] rest l.shape _ (by simp) hlang
        (by simpa using hts)
      simpa using hnext

/-- **Scanning finds the leftmost reading** and no other. -/
theorem leftmost_iff (h : recognise.Recognises language) (source : Text) (ts : List Sighting) :
    Leftmost language [] source ts ↔ ts = (scan recognise source).tokens.map Token.sighting := by
  constructor
  · suffices key : ∀ before rest ts, Leftmost language before rest ts →
        ts = (scanFrom recognise (Mark.start.past before) 0 rest).tokens.map Token.sighting from
      key [] source ts
    intro before rest ts hts
    induction hts with
    | @done before rest hd =>
      -- Nothing begins anywhere in the rest, so all of it is a gap.
      have hgap := @tokens_scanFrom_gap recognise (Mark.start.past before) rest [] fun u v huv _ =>
        by simpa using h.eq_none_iff.mpr (hd u v huv)
      rw [List.append_nil] at hgap
      rw [hgap]
      rfl
    | @next before gap rest x ts hgap hx _ ih =>
      obtain ⟨l, hl, rfl⟩ := h.complete hx (List.prefix_append _ rest)
      rw [tokens_scanFrom_gap fun u v huv hv => h.eq_none_iff.mpr (hgap u v huv hv),
        ← Mark.past_append]
      change recognise (l.text ++ rest) = some l at hl
      change _ = (scanFrom recognise _ 0 (l.text ++ rest)).tokens.map Token.sighting
      rw [tokens_scanFrom_found (h.nonempty hx) hl, List.map_cons, sighting_token,
        ← Mark.past_append, ih]
      rfl
  · rintro rfl
    exact leftmost_scanFrom h [] source

end

end ConfigTemplate
