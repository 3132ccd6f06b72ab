/-
Scanning a text in pieces.

* `scanFrom_append`: a text is cut as if nothing stood behind it, if what stands there makes
  no difference to the recogniser anywhere in the text;
* `tokens_scanFrom_cut`: so scanning starts afresh behind a character that stops the recogniser;
* `scanFrom_found`: a reference that is found is cut off as a whole;
* `unplaced_scanFrom`: where a text begins settles nothing but the places of its tokens;
* `scanFrom_eq_last`: so a text without references is one gap wherever it begins.
-/
import ConfigTemplate.Reference.Token

namespace ConfigTemplate

namespace Segments

/-- Segments with more behind them.  The last gap goes on in the first one. -/
def append : Segments → Segments → Segments
  | last s, last u => last (s ++ u)
  | last s, before gap t rest => before (s ++ gap) t rest
  | before gap t rest, more => before gap t (rest.append more)

@[simp] theorem nil_append (more : Segments) : (last []).append more = more := by
  cases more <;> rfl

@[simp] theorem cons_append (c : Char) (segments more : Segments) :
    (segments.cons c).append more = (segments.append more).cons c := by
  cases segments with
  | last s => cases more <;> rfl
  | before => rfl

@[simp] theorem tokens_append (segments more : Segments) :
    (segments.append more).tokens = segments.tokens ++ more.tokens := by
  induction segments with
  | last s => cases more <;> rfl
  | before gap t rest ih => exact congrArg (t :: ·) ih

end Segments

/-- Whether a recogniser reads nothing from a character on. -/
def Recogniser.StopsAt (recognise : Recogniser) (c : Char) : Prop :=
  ∀ s t, recognise (s ++ c :: t) = recognise s

section

variable {recognise : Recogniser}

theorem Recogniser.Sound.nil_eq_none (h : recognise.Sound) : recognise [] = none := by
  rcases hl : recognise [] with _ | l
  · rfl
  · obtain ⟨hne, hpre⟩ := h _ _ hl
    exact absurd (List.prefix_nil.mp hpre) hne

/-- **A text is cut as if nothing stood behind it**, if that makes no difference to the
recogniser anywhere in the text. -/
theorem scanFrom_append (h : recognise.Sound) {s t : Text}
    (ht : ∀ v, v <:+ s → v ≠ [] → recognise (v ++ t) = recognise v) (m : Mark) {skip : Nat}
    (hskip : skip ≤ s.length) :
    scanFrom recognise m skip (s ++ t) =
      (scanFrom recognise m skip s).append (scanFrom recognise (m.past s) 0 t) := by
  induction s generalizing m skip with
  | nil =>
    obtain rfl : skip = 0 := Nat.le_zero.mp hskip
    simp [scanFrom]
  | cons c s ih =>
    have hs : ∀ v, v <:+ s → v ≠ [] → recognise (v ++ t) = recognise v := fun v hv =>
      ht v (hv.trans (List.suffix_cons c s))
    rcases skip with _ | skip
    · have hc : recognise (c :: (s ++ t)) = recognise (c :: s) :=
        ht (c :: s) List.suffix_rfl (List.cons_ne_nil c s)
      rw [List.cons_append, scanFrom, scanFrom, hc, Mark.past_cons]
      rcases hl : recognise (c :: s) with _ | l
      · rw [Segments.cons_append, ih hs (m.next c) (Nat.zero_le _)]
      · -- A reference ends in the text, so nothing of it is left to pass over.
        have hlen : l.text.length - 1 ≤ s.length := by
          have hle := (h _ _ hl).2.length_le
          rw [List.length_cons] at hle
          omega
        simp only [Segments.append, ih hs (m.next c) hlen]
    · exact ih hs (m.next c) (Nat.succ_le_succ_iff.mp hskip)

/-- **Scanning starts afresh** behind a character that stops the recogniser. -/
theorem tokens_scanFrom_cut {c : Char} (h : recognise.Sound) (hc : recognise.StopsAt c) (m : Mark)
    {skip : Nat} {s : Text} (hskip : skip ≤ s.length) (t : Text) :
    (scanFrom recognise m skip (s ++ c :: t)).tokens =
      (scanFrom recognise m skip s).tokens ++
        (scanFrom recognise ((m.past s).next c) 0 t).tokens := by
  -- Nothing begins at the character, since nothing begins at the end of a text.
  have hnone : recognise (c :: t) = none := (hc [] t).trans h.nil_eq_none
  rw [scanFrom_append h (fun v _ _ => hc v t) m hskip, Segments.tokens_append]
  simp [scanFrom, hnone]

theorem scanFrom_found {m : Mark} {l : Lexeme} {rest : Text} (hne : l.text ≠ [])
    (hl : recognise (l.text ++ rest) = some l) :
    scanFrom recognise m 0 (l.text ++ rest) =
      .before [] (l.token m) (scanFrom recognise (m.past l.text) 0 rest) := by
  obtain ⟨c, t, ht⟩ := List.exists_cons_of_ne_nil hne
  rw [ht, List.cons_append] at hl ⊢
  rw [scanFrom, hl]
  simp only [ht, List.length_cons, Nat.add_sub_cancel, scanFrom_skip, Mark.past_cons]

/-- A text that is one reference is cut into that reference and nothing else. -/
theorem scan_whole {l : Lexeme} (hne : l.text ≠ []) (hl : recognise l.text = some l) :
    scan recognise l.text = .before [] (l.token .start) (.last []) := by
  have hfound := @scanFrom_found recognise .start l [] hne (by rw [List.append_nil, hl])
  rwa [List.append_nil] at hfound

/-! ### Places -/

/-- The token without its place. -/
def Token.unplaced (t : Token) : Token :=
  { t with place := .start }

/-- The segments without the places of their tokens. -/
def Segments.unplaced : Segments → Segments
  | .last s => .last s
  | .before gap t rest => .before gap t.unplaced rest.unplaced

@[simp] theorem Segments.unplaced_cons (c : Char) (segments : Segments) :
    (segments.cons c).unplaced = segments.unplaced.cons c := by
  cases segments <;> rfl

@[simp] theorem Segments.tokens_unplaced (segments : Segments) :
    segments.unplaced.tokens = segments.tokens.map Token.unplaced := by
  induction segments with
  | last s => rfl
  | before gap t rest ih => exact congrArg (t.unplaced :: ·) ih

theorem Segments.eq_last_of_tokens {segments : Segments} (h : segments.tokens = []) :
    segments = .last segments.source := by
  cases segments with
  | last s => rfl
  | before gap t rest => cases h

/-- **Where a text begins settles nothing but the places** of its tokens. -/
theorem unplaced_scanFrom (m m' : Mark) (skip : Nat) (s : Text) :
    (scanFrom recognise m skip s).unplaced = (scanFrom recognise m' skip s).unplaced := by
  induction s generalizing m m' skip with
  | nil => simp [scanFrom]
  | cons c s ih =>
    rcases skip with _ | skip
    · rw [scanFrom, scanFrom]
      rcases recognise (c :: s) with _ | l
      · rw [Segments.unplaced_cons, Segments.unplaced_cons, ih (m.next c) (m'.next c)]
      · simp only [Segments.unplaced, ih (m.next c) (m'.next c)]
        rfl
    · exact ih (m.next c) (m'.next c) skip

/-- A text without references is one gap, wherever it begins. -/
theorem scanFrom_eq_last (hsound : recognise.Sound) {s : Text}
    (h : (scan recognise s).tokens = []) (m : Mark) : scanFrom recognise m 0 s = .last s := by
  have hunplaced := congrArg Segments.tokens (@unplaced_scanFrom recognise m .start 0 s)
  rw [← scan, Segments.tokens_unplaced, Segments.tokens_unplaced, h, List.map_nil,
    List.map_eq_nil_iff] at hunplaced
  rw [Segments.eq_last_of_tokens hunplaced, source_scanFrom hsound]

end

end ConfigTemplate
