/-
Where tokens stand in the bytes of a text.

A token spans the bytes from its start to its stop.

* `placed_scanFrom`: scanning places every token where the text before it ends;
* `Segments.Placed.spans`: so the spans follow one another, and each holds the text of its
  token;
* `Segments.Placed.substitute_eq`: and replacing the spans replaces the tokens and leaves the
  text between them as it is.
-/
import ConfigTemplate.Proofs.Reference.Scanning
import ConfigTemplate.Text.Utf8

namespace ConfigTemplate

/-! ### Slices -/

/-- The bytes from `start` up to `stop`. -/
def Utf8.slice (bytes : Bytes) (start stop : Nat) : Bytes :=
  (bytes.take stop).drop start

theorem Utf8.slice_encode (before s after : Text) :
    slice (encode (before ++ s ++ after)) before.byteLength (before ++ s).byteLength =
      encode s := by
  rw [slice, encode_append, ← length_encode (before ++ s), List.take_left, encode_append,
    ← length_encode before, List.drop_left]

/-- `Spans bytes cursor ts`: from the cursor on, the spans of the tokens follow one another
without overlap, and each holds the text of its token. -/
inductive Spans (bytes : Bytes) : (cursor : Nat) → List Token → Prop
  | done {cursor : Nat} (h : cursor ≤ bytes.length) : Spans bytes cursor []
  | next {cursor : Nat} {t : Token} {ts : List Token} (hstart : cursor ≤ t.start)
      (htext : Utf8.slice bytes t.start t.stop = Utf8.encode t.text)
      (h : Spans bytes t.stop ts) : Spans bytes cursor (t :: ts)

/-- The bytes from the cursor on, with a text for the span of every token. -/
def substitute (bytes : Bytes) (value : Token → Text) (cursor : Nat) : List Token → Bytes
  | [] => bytes.drop cursor
  | t :: ts =>
    Utf8.slice bytes cursor t.start ++ Utf8.encode (value t) ++ substitute bytes value t.stop ts

namespace Segments

/-- Segments that begin at `m`, with every token where the text before it ends. -/
def Placed (m : Mark) : Segments → Prop
  | last _ => True
  | before gap t rest => t.place = m.past gap ∧ rest.Placed ((m.past gap).past t.text)

/-- The text with a text for every token. -/
def fill (value : Token → Text) : Segments → Text
  | last s => s
  | before gap t rest => gap ++ value t ++ rest.fill value

theorem append_source_before (front gap : Text) (t : Token) (rest : Segments) :
    front ++ (before gap t rest).source = front ++ gap ++ t.text ++ rest.source := by
  simp [source]

theorem placed_cons {m : Mark} {c : Char} {segments : Segments} :
    (segments.cons c).Placed m ↔ segments.Placed (m.next c) := by
  cases segments <;> rfl

theorem Placed.offsets {gap : Text} {t : Token} {rest : Segments} {m : Mark} {front : Text}
    (h : (Segments.before gap t rest).Placed m) (hm : m.offset = front.byteLength) :
    t.start = (front ++ gap).byteLength ∧ t.stop = (front ++ gap ++ t.text).byteLength ∧
      ((m.past gap).past t.text).offset = t.stop := by
  obtain ⟨hplace, -⟩ := h
  simp [Token.start, Token.stop, hplace, Mark.past_eq, hm, Nat.add_assoc]

/-- **The spans of placed tokens follow one another**, and each holds the text of its token. -/
theorem Placed.spans {segments : Segments} {m : Mark} (h : segments.Placed m) {front : Text}
    (hm : m.offset = front.byteLength) :
    Spans (Utf8.encode (front ++ segments.source)) m.offset segments.tokens := by
  induction segments generalizing m front with
  | last s =>
    refine .done ?_
    rw [hm, Utf8.length_encode, Text.byteLength_append]
    omega
  | before gap t rest ih =>
    obtain ⟨hstart, hstop, hoffset⟩ := h.offsets hm
    rw [append_source_before]
    refine .next ?_ ?_ ?_
    · rw [hm, hstart, Text.byteLength_append]
      omega
    · rw [hstart, hstop, Utf8.slice_encode]
    · have hrest := ih h.2 (hoffset.trans hstop)
      rwa [hoffset] at hrest

/-- **Replacing the spans of placed tokens** leaves the text between them as it is. -/
theorem Placed.substitute_eq (value : Token → Text) {segments : Segments} {m : Mark}
    (h : segments.Placed m) {front : Text} (hm : m.offset = front.byteLength) :
    substitute (Utf8.encode (front ++ segments.source)) value m.offset segments.tokens =
      Utf8.encode (segments.fill value) := by
  induction segments generalizing m front with
  | last s =>
    show (Utf8.encode (front ++ s)).drop m.offset = Utf8.encode s
    rw [hm, Utf8.encode_append, ← Utf8.length_encode, List.drop_left]
  | before gap t rest ih =>
    obtain ⟨hstart, hstop, hoffset⟩ := h.offsets hm
    have hrest := ih h.2 (hoffset.trans hstop)
    have hgap := Utf8.slice_encode front gap (t.text ++ rest.source)
    rw [hoffset] at hrest
    rw [← List.append_assoc (front ++ gap)] at hgap
    rw [tokens, substitute, append_source_before, hrest, hm, hstart, hgap, fill, Utf8.encode_append,
      Utf8.encode_append]

end Segments

/-- **Scanning places every token where the text before it ends.**  The characters that are
passed over stand before the segments. -/
theorem placed_scanFrom {recognise : Recogniser} (hsound : recognise.Sound) (m : Mark) (skip : Nat)
    (s : Text) : (scanFrom recognise m skip s).Placed (m.past (s.take skip)) := by
  induction s generalizing m skip with
  | nil => trivial
  | cons c s ih =>
    cases skip with
    | succ skip => exact ih (m.next c) skip
    | zero =>
      rw [scanFrom]
      cases hl : recognise (c :: s) with
      | none => exact Segments.placed_cons.mpr (ih (m.next c) 0)
      | some l =>
        -- What is passed over next is the rest of the reference.
        obtain ⟨hne, r, hr⟩ := hsound _ _ hl
        obtain ⟨d, u, hu⟩ := List.exists_cons_of_ne_nil hne
        rw [hu, List.cons_append, List.cons.injEq] at hr
        obtain ⟨rfl, rfl⟩ := hr
        have htake : (u ++ r).take (l.text.length - 1) = u := by
          rw [hu, List.length_cons, Nat.add_sub_cancel, List.take_left]
        have hrest := ih (m.next d) (l.text.length - 1)
        rw [htake, ← Mark.past_cons, ← hu] at hrest
        exact ⟨rfl, hrest⟩

/-- The tokens of a text span bytes of it, one behind the other. -/
theorem spans_scan {recognise : Recogniser} (hsound : recognise.Sound) (s : Text) :
    Spans (Utf8.encode s) 0 (scan recognise s).tokens := by
  have hstart : Mark.start.offset = Text.byteLength [] := rfl
  have hspans := (placed_scanFrom hsound .start 0 s).spans hstart
  rwa [source_scanFrom hsound] at hspans

/-- A text with a text for the span of every token is what its segments are filled to. -/
theorem substitute_scan {recognise : Recogniser} (hsound : recognise.Sound) (value : Token → Text)
    (s : Text) :
    substitute (Utf8.encode s) value 0 (scan recognise s).tokens =
      Utf8.encode ((scan recognise s).fill value) := by
  have hstart : Mark.start.offset = Text.byteLength [] := rfl
  have hfill := (placed_scanFrom hsound .start 0 s).substitute_eq value hstart
  rwa [source_scanFrom hsound] at hfill

end ConfigTemplate
