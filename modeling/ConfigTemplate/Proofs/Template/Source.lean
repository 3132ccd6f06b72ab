/-
The source of a parsed template.

A template does not keep its closing tags, and yet nothing else of its source is lost:
written out node by node, with some closing tag behind the body of each section, it is
the source again.

* `Written source ns s`: writing the nodes `ns` out gives `s`, with closing tags taken
  from `source`;
* `Builds.written`: parsing keeps what the open sections, the body so far and the text
  still to be read are together;
* `Tidy`: no literal text is empty or follows another;
* `parse_lossless`: parsing loses nothing and invents nothing.

Design notes: the tags of open sections have been read but stand in no node yet, so
that `Builds.written` speaks of them apart, as `WrittenOuter`.
-/
import ConfigTemplate.Proofs.Reference.Grammar
import ConfigTemplate.Proofs.Template.References

namespace ConfigTemplate

/-! ### Tokens by themselves -/

theorem Segments.text_infix_of_mem_tokens {segments : Segments} {t : Token}
    (h : t ∈ segments.tokens) : t.text <:+: segments.source := by
  induction segments with
  | last s => simp [tokens] at h
  | before gap u rest ih =>
    rcases List.mem_cons.mp h with rfl | h
    · exact List.infix_append gap t.text rest.source
    · have hrest : t.text <:+: rest.source := ih h
      exact hrest.trans (List.suffix_append (gap ++ u.text) rest.source).isInfix

open Placeholder in
/-- The text of a placeholder by itself is that placeholder again. -/
theorem placeholders_text_of_mem {source : Text} {t : Token}
    (h : t ∈ (placeholders source).tokens) :
    ∃ u, (placeholders t.text).tokens = [u] ∧ u.kind = t.kind ∧ u.path.raw = t.path.raw ∧
      u.text = t.text := by
  obtain ⟨s, x, m, hx, rfl⟩ := exists_of_mem_tokens_scanFrom h
  have hlang : language x.shape := language_of_placeholder? hx
  obtain ⟨l, hl, hshape⟩ := recognises_language.complete hlang (List.prefix_refl x.text)
  have htext : l.text = x.text := congrArg Shape.text hshape
  have hne : l.text ≠ [] := by
    rw [htext]
    exact (placeholder?_sound _ _ hx).1
  have hwhole : placeholders l.text = .before [] (l.token .start) (.last []) :=
    scan_whole hne (by rw [htext, hl])
  have htokens : (placeholders x.text).tokens = [l.token .start] := by
    rw [← htext, hwhole]
    rfl
  exact ⟨l.token .start, htokens, congrArg Shape.kind hshape, congrArg Shape.raw hshape, htext⟩

namespace Node

/-! ### Writing nodes out -/

/-- Whether a text stands in the source and is, by itself, a closing tag of the section
`name` and nothing else. -/
def ClosingTag (source name closing : Text) : Prop :=
  closing <:+: source ∧ ∃ t, (placeholders closing).tokens = [t] ∧ t.kind = .closing ∧
    t.path.raw = name ∧ t.text = closing

/-- `Written source ns s`: writing the nodes out gives `s`, where each section ends with
a closing tag of its name that stands in the source. -/
inductive Written (source : Text) : List Node → Text → Prop
  | nil : Written source [] []
  | text {s r : Text} {ns : List Node} (h : Written source ns r) :
      Written source (.text s :: ns) (s ++ r)
  | reference {t : Token} {r : Text} {ns : List Node} (h : Written source ns r) :
      Written source (.reference t :: ns) (t.text ++ r)
  | block {tag : Token} {b closing r : Text} {body ns : List Node}
      (hbody : Written source body b) (hclosing : ClosingTag source (name tag) closing)
      (h : Written source ns r) :
      Written source (.block tag body :: ns) (tag.text ++ b ++ closing ++ r)

/-- What has been read before the body of the innermost open section: the nodes before
each open section and its tag. -/
inductive WrittenOuter (source : Text) : List (Token × List Node) → Text → Prop
  | nil : WrittenOuter source [] []
  | cons {tag : Token} {before : List Node} {outer : List (Token × List Node)} {s b : Text}
      (h : WrittenOuter source outer s) (hbefore : Written source before b) :
      WrittenOuter source ((tag, before) :: outer) (s ++ b ++ tag.text)

section

variable {source : Text}

theorem Written.append {ms ns : List Node} {a b : Text} (hm : Written source ms a)
    (hn : Written source ns b) : Written source (ms ++ ns) (a ++ b) := by
  induction hm with
  | nil => exact hn
  | text _ ih =>
    rw [List.append_assoc]
    exact .text ih
  | reference _ ih =>
    rw [List.append_assoc]
    exact .reference ih
  | block hbody hclosing _ _ ih =>
    rw [List.append_assoc]
    exact .block hbody hclosing ih

theorem written_literal (source s : Text) : Written source (literal s) s := by
  unfold literal
  split
  · next hs =>
    obtain rfl : s = [] := by simpa using hs
    exact .nil
  · have h : Written source [.text s] (s ++ []) := .text .nil
    rwa [List.append_nil] at h

theorem Written.append_literal {ns : List Node} {b : Text} (h : Written source ns b) (s : Text) :
    Written source (ns ++ literal s) (b ++ s) :=
  h.append (written_literal source s)

theorem written_reference (source : Text) (t : Token) : Written source [.reference t] t.text := by
  have h : Written source [.reference t] (t.text ++ []) := .reference .nil
  rwa [List.append_nil] at h

theorem Written.section {tag : Token} {body : List Node} {b closing : Text}
    (hbody : Written source body b) (hclosing : ClosingTag source (name tag) closing) :
    Written source [.block tag body] (tag.text ++ b ++ closing) := by
  have h : Written source [.block tag body] (tag.text ++ b ++ closing ++ []) :=
    .block hbody hclosing .nil
  rwa [List.append_nil] at h

/-- **Parsing keeps the source.**  What stands before the innermost body, that body and
the segments still to be read are the same text at every step. -/
theorem Builds.written {outer : List (Token × List Node)} {body nodes : List Node}
    {segments : Segments} {s b : Text} (h : Builds nodes outer body segments)
    (houter : WrittenOuter source outer s) (hbody : Written source body b)
    (hclosing : ∀ t ∈ segments.tokens, t.kind = .closing →
      ClosingTag source (name t) t.text) :
    Written source nodes (s ++ b ++ segments.source) := by
  induction h generalizing s b with
  | @last body r hnodes =>
    cases houter
    have hlast : Written source nodes (b ++ r) := hnodes ▸ hbody.append_literal r
    simpa [Segments.source] using hlast
  | @opening outer body gap t rest _ _ ih =>
    have hgap := hbody.append_literal gap
    have key := ih (.cons houter hgap) .nil (List.forall_mem_cons.mp hclosing).2
    simpa [Segments.source] using key
  | @closing outer before body gap tag t rest ht hname _ ih =>
    -- The token closes the section, which becomes a node behind those before it.
    obtain ⟨hhead, hrest⟩ := List.forall_mem_cons.mp hclosing
    have hgap := hbody.append_literal gap
    have htag : ClosingTag source (name tag) t.text := hname ▸ hhead ht
    cases houter with
    | cons houter hbefore =>
      have key := ih houter (hbefore.append (hgap.section htag)) hrest
      simpa [Segments.source] using key
  | @reference outer body gap t rest _ _ ih =>
    have hgap := hbody.append_literal gap
    have key := ih houter (hgap.append (written_reference source t))
      (List.forall_mem_cons.mp hclosing).2
    simpa [Segments.source] using key

/-! ### Literal text -/

/-- Whether no literal text among the nodes, at whatever depth, is empty or stands right
behind another. -/
inductive Tidy : List Node → Prop
  | nil : Tidy []
  | text {s : Text} {ns : List Node} (hs : s ≠ []) (hnext : ∀ u ms, ns ≠ .text u :: ms)
      (h : Tidy ns) : Tidy (.text s :: ns)
  | reference {t : Token} {ns : List Node} (h : Tidy ns) : Tidy (.reference t :: ns)
  | block {tag : Token} {body ns : List Node} (hbody : Tidy body) (h : Tidy ns) :
      Tidy (.block tag body :: ns)

/-- Whether literal text may follow the nodes. -/
def Open (ns : List Node) : Prop :=
  ∀ s, ns.getLast? ≠ some (.text s)

theorem open_nil : Open [] := by simp [Open]

theorem open_append_singleton {ns : List Node} {n : Node} (hn : ∀ s, n ≠ .text s) :
    Open (ns ++ [n]) := by
  intro s hs
  rw [List.getLast?_concat, Option.some.injEq] at hs
  exact hn s hs

theorem tidy_literal (s : Text) : Tidy (literal s) := by
  unfold literal
  split
  · exact .nil
  · next hs =>
    have hne : s ≠ [] := by simpa using hs
    exact .text hne (by simp) .nil

theorem Open.tail {m : Node} {ms : List Node} (h : Open (m :: ms)) : Open ms := by
  intro s hs
  have hlast : (m :: ms).getLast? = some (.text s) := by simp [List.getLast?_cons, hs]
  exact h s hlast

/-- Tidy nodes stay tidy behind each other, unless a text comes to stand behind a text. -/
theorem Tidy.append {ms ns : List Node} (hm : Tidy ms) (hn : Tidy ns)
    (hjoin : Open ms ∨ ∀ s rest, ns ≠ .text s :: rest) : Tidy (ms ++ ns) := by
  induction hm with
  | nil => exact hn
  | @text s ms hs hnext _ ih =>
    refine .text hs (fun u rest hu => ?_) (ih (hjoin.imp_left Open.tail))
    rcases ms with _ | ⟨m, ms⟩
    · rcases hjoin with hopen | hstart
      · exact hopen s rfl
      · exact hstart u rest hu
    · obtain ⟨rfl, -⟩ := List.cons.inj hu
      exact hnext u ms rfl
  | reference _ ih => exact .reference (ih (hjoin.imp_left Open.tail))
  | block hbody _ _ ih => exact .block hbody (ih (hjoin.imp_left Open.tail))

theorem Tidy.append_literal {ns : List Node} (h : Tidy ns) (hopen : Open ns) (s : Text) :
    Tidy (ns ++ literal s) :=
  h.append (tidy_literal s) (.inl hopen)

/-- Parsing makes literal text only of what there is between two tokens. -/
theorem Builds.tidy {outer : List (Token × List Node)} {body nodes : List Node}
    {segments : Segments} (h : Builds nodes outer body segments)
    (houter : ∀ o ∈ outer, Tidy o.2) (hbody : Tidy body) (hopen : Open body) :
    Tidy nodes := by
  induction h with
  | @last body r hnodes => exact hnodes ▸ hbody.append_literal hopen r
  | @opening outer body gap t rest _ _ ih =>
    have hgap := hbody.append_literal hopen gap
    exact ih (List.forall_mem_cons.mpr ⟨hgap, houter⟩) .nil open_nil
  | @closing outer before body gap tag t rest _ _ _ ih =>
    obtain ⟨hbefore, houter⟩ := List.forall_mem_cons.mp houter
    have hgap := hbody.append_literal hopen gap
    exact ih houter (hbefore.append (.block hgap .nil) (.inr (by simp)))
      (open_append_singleton (by simp))
  | @reference outer body gap t rest _ _ ih =>
    have hgap := hbody.append_literal hopen gap
    exact ih houter (hgap.append (.reference .nil) (.inr (by simp)))
      (open_append_singleton (by simp))

end

end Node

/-- **Parsing loses nothing and invents nothing.**  Written out with a closing tag of
its name behind each section, every one of them found in the source, a template is its
source.  Its tokens are those of the source but for the closing tags, in order, and no
literal text in it is empty or follows another. -/
theorem parse_lossless {source : Text} {template : Template}
    (h : Template.parse source = .ok template) :
    Node.Written source template.nodes source ∧
      Node.tokensAll template.nodes =
        (placeholders source).tokens.filter (fun t => t.kind ≠ .closing) ∧
      Node.Tidy template.nodes := by
  have hbuilds := Template.builds_of_parse h
  have hsource : (placeholders source).source = source := source_scan placeholder?_sound source
  have hclosing : ∀ t ∈ (placeholders source).tokens, t.kind = .closing →
      Node.ClosingTag source (Node.name t) t.text := by
    intro t ht hk
    obtain ⟨u, hu, hkind, hraw, htext⟩ := placeholders_text_of_mem ht
    have hstands : t.text <:+: source := hsource ▸ Segments.text_infix_of_mem_tokens ht
    exact ⟨hstands, u, hu, hkind.trans hk, hraw, htext⟩
  refine ⟨?_, Template.tokens_parse h, ?_⟩
  · have hwritten := hbuilds.written .nil .nil hclosing
    rwa [List.append_nil, List.nil_append, hsource] at hwritten
  · exact hbuilds.tidy (fun o ho => absurd ho List.not_mem_nil) .nil Node.open_nil

/-! ### A section in a section -/

/-- An inverted section at the end of a section, with blanks in its closing tag. -/
def nestedSource : Text :=
  "a \x7b\x7b#s\x7d\x7d\x7b\x7b x \x7d\x7d".toList ++
    "\x7b\x7b^t\x7d\x7db\x7b\x7b/ t \x7d\x7d\x7b\x7b/s\x7d\x7dc".toList

/-- The template parsed. -/
def nestedTemplate : Template :=
  ⟨[.text "a ".toList,
    .block ⟨.opening, .literal "s".toList, "\x7b\x7b#s\x7d\x7d".toList, ⟨1, 2⟩⟩
      [.reference ⟨.name, .literal "x ".toList, "\x7b\x7b x \x7d\x7d".toList, ⟨1, 8⟩⟩,
        .block ⟨.inverted, .literal "t".toList, "\x7b\x7b^t\x7d\x7d".toList, ⟨1, 15⟩⟩
          [.text "b".toList]],
    .text "c".toList]⟩

/-- The closing tags of both sections are found again. -/
theorem nestedTemplate_lossless :
    Template.parse nestedSource = .ok nestedTemplate ∧
      Node.Written nestedSource nestedTemplate.nodes nestedSource ∧
      Node.Tidy nestedTemplate.nodes := by
  have hparse : Template.parse nestedSource = .ok nestedTemplate := by decide +kernel
  obtain ⟨hwritten, -, htidy⟩ := parse_lossless hparse
  exact ⟨hparse, hwritten, htidy⟩

end ConfigTemplate
