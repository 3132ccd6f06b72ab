/-
Placeholders, with their blanks and sigils.

* `placeholder?_cases`: a placeholder is its lead, an interior that can be read
  and closing braces, and `placeholder?_append` says that each of these is found;
* `placeholder?_sound`: it is what the text begins with;
* `placeholder?_newline`: it ends on the line that it begins on;
* `placeholder?_literal`: without braces in its path, the path is plain text.
-/
import ConfigTemplate.Proofs.Reference.Interior
import ConfigTemplate.Proofs.Reference.Scanning

namespace ConfigTemplate

namespace Placeholder

/-! ### The whole placeholder -/

/-- What stands between the opening braces and the path: blanks and perhaps a
sigil, which settle what a path makes of the placeholder. -/
inductive Lead : (lead : Text) → (sigil : Option Char) → (kind : Path → Kind) → Prop
  | plain {pad : Text} (hpad : Padding pad) : Lead pad none plainKind
  | sigil {pad : Text} {c : Char} {kind : Kind} (hpad : Padding pad)
      (hc : sigil? c = some kind) : Lead (pad ++ [c]) (some c) fun _ => kind

theorem lexeme?_eq_some_iff {lead : Text} {kind : Path → Kind} {l : Level} {x : Lexeme} :
    lexeme? lead kind l = some x ↔ ∃ p, l.path? = some p ∧
      (p.isNested = true → mayNest (kind p) = true) ∧
      x = ⟨kind p, p, '\x7b' :: '\x7b' :: (lead ++ l.written ++ ['\x7d', '\x7d'])⟩ := by
  unfold lexeme?
  rw [Option.bind_eq_some_iff]
  refine exists_congr fun p => and_congr_right fun _ => ?_
  simp only [Level.written, List.append_assoc]
  split
  · next h =>
    rw [Bool.and_eq_true, Bool.not_eq_true'] at h
    simp [h.1, h.2]
  · next h =>
    rw [Bool.and_eq_true, Bool.not_eq_true', not_and, Bool.not_eq_false] at h
    rw [Option.some.injEq, eq_comm]
    exact (and_iff_right h).symm

theorem placeholder?_lead {pad : Text} {c : Char} (s : Text) (hpad : Padding pad)
    (hc : isPad c = false) :
    placeholder? ('\x7b' :: '\x7b' :: (pad ++ c :: s)) =
      match sigil? c with
      | some kind => (interior [] .empty s).bind (lexeme? (pad ++ [c]) fun _ => kind)
      | none => (interior [] .empty (c :: s)).bind (lexeme? pad plainKind) := by
  have htake : (pad ++ c :: s).takeWhile isPad = pad := by
    rw [List.takeWhile_append_of_pos hpad, List.takeWhile_cons_of_neg (by simp [hc]),
      List.append_nil]
  have hdrop : (pad ++ c :: s).dropWhile isPad = c :: s := by
    rw [List.dropWhile_append_of_pos hpad, List.dropWhile_cons_of_neg (by simp [hc])]
  rcases hc' : sigil? c with _ | kind
  · simp only [placeholder?, htake, hdrop, hc']
  · simp only [placeholder?, htake, hdrop, hc']

/-- A text with a placeholder has a character that is not blank behind the braces
and the blanks. -/
theorem exists_lead_of_placeholder? {s : Text} {x : Lexeme} (h : placeholder? s = some x) :
    ∃ pad c u, s = '\x7b' :: '\x7b' :: (pad ++ c :: u) ∧ Padding pad ∧
      isPad c = false := by
  unfold placeholder? at h
  split at h
  · next s =>
    have hs : ¬ Padding s := fun hp => by simp [List.dropWhile_eq_nil_iff.mpr hp] at h
    obtain ⟨pad, c, u, rfl, hpad, hc⟩ := exists_padding_append hs
    exact ⟨pad, c, u, rfl, hpad, hc⟩
  · simp at h

/-- Everything that a placeholder is made of. -/
theorem placeholder?_cases {s : Text} {x : Lexeme} (h : placeholder? s = some x) :
    ∃ lead sigil kind t r p rest, Lead lead sigil kind ∧ Reads 0 .empty t r ∧
      r.path? = some p ∧ (p.isNested = true → mayNest (kind p) = true) ∧
      s = x.text ++ rest ∧
      x = ⟨kind p, p, '\x7b' :: '\x7b' :: (lead ++ t ++ ['\x7d', '\x7d'])⟩ := by
  obtain ⟨pad, c, u, rfl, hpad, hc⟩ := exists_lead_of_placeholder? h
  rw [placeholder?_lead u hpad hc] at h
  -- Both kinds of lead end in the same way, so the rest is said once.
  have key : ∀ lead sigil kind v, Lead lead sigil kind → lead ++ v = pad ++ c :: u →
      (interior [] .empty v).bind (lexeme? lead kind) = some x →
      ∃ lead sigil kind t r p rest, Lead lead sigil kind ∧ Reads 0 .empty t r ∧
        r.path? = some p ∧ (p.isNested = true → mayNest (kind p) = true) ∧
        '\x7b' :: '\x7b' :: (pad ++ c :: u) = x.text ++ rest ∧
        x = ⟨kind p, p, '\x7b' :: '\x7b' :: (lead ++ t ++ ['\x7d', '\x7d'])⟩ := by
    intro lead sigil kind v hlead hv hx
    obtain ⟨r, hr, hlex⟩ := Option.bind_eq_some_iff.mp hx
    obtain ⟨t, rest, rfl, ht⟩ := interior_nil_iff.mp hr
    obtain ⟨p, hp, hnest, rfl⟩ := lexeme?_eq_some_iff.mp hlex
    have hw : r.written = t := by simpa using ht.written_eq
    exact ⟨lead, sigil, kind, t, r, p, rest, hlead, ht, hp, hnest, by simp [← hv, hw], by rw [hw]⟩
  split at h
  · next kind hk => exact key _ _ _ u (.sigil hpad hk) (by simp) h
  · exact key _ _ _ _ (.plain hpad) rfl h

theorem isPad_of_sigil? {c : Char} {kind : Kind} (h : sigil? c = some kind) : isPad c = false := by
  rcases hp : isPad c with _ | _
  · rfl
  · have hblank : c = ' ' ∨ c = '\t' := by simpa [isPad] using hp
    rcases hblank with rfl | rfl
    · simp [sigil?] at h
    · simp [sigil?] at h

theorem sigil?_of_isPathChar {c : Char} (h : isPathChar c = true) : sigil? c = none := by
  rw [sigil?, if_neg (ne_of_isPathChar h rfl), if_neg (ne_of_isPathChar h rfl),
    if_neg (ne_of_isPathChar h rfl), if_neg (ne_of_isPathChar h rfl)]

theorem Reads.sigil?_eq_none {d : Nat} {l l' : Level} {c : Char} {s : Text}
    (h : Reads d l (c :: s) l') : sigil? c = none := by
  cases h with
  | char hc _ => exact sigil?_of_isPathChar hc
  | ref => rfl

/-- A lead is found, with the interior behind it. -/
theorem placeholder?_append {lead t : Text} {sigil : Option Char} {kind : Path → Kind}
    {r : Level} {p : Path} (hlead : Lead lead sigil kind) (ht : Reads 0 .empty t r)
    (hfirst : sigil = none → ∃ c u, t = c :: u ∧ isPad c = false) (hp : r.path? = some p)
    (hnest : p.isNested = true → mayNest (kind p) = true) (rest : Text) :
    placeholder? ('\x7b' :: '\x7b' :: (lead ++ t ++ ['\x7d', '\x7d']) ++ rest) =
      some ⟨kind p, p, '\x7b' :: '\x7b' :: (lead ++ t ++ ['\x7d', '\x7d'])⟩ := by
  have hr : interior [] .empty (t ++ '\x7d' :: '\x7d' :: rest) = some r :=
    interior_nil_iff.mpr ⟨t, rest, rfl, ht⟩
  have hw : r.written = t := by simpa using ht.written_eq
  have hx : lexeme? lead kind r =
      some ⟨kind p, p, '\x7b' :: '\x7b' :: (lead ++ t ++ ['\x7d', '\x7d'])⟩ :=
    lexeme?_eq_some_iff.mpr ⟨p, hp, hnest, by rw [hw]⟩
  have hs : '\x7b' :: '\x7b' :: (lead ++ t ++ ['\x7d', '\x7d']) ++ rest =
      '\x7b' :: '\x7b' :: (lead ++ (t ++ '\x7d' :: '\x7d' :: rest)) := by simp
  rw [hs]
  cases hlead with
  | plain hpad =>
    obtain ⟨c, u, rfl, hc⟩ := hfirst rfl
    rw [List.cons_append, placeholder?_lead _ hpad hc, ht.sigil?_eq_none]
    exact hr ▸ hx
  | @sigil pad c k hpad hc =>
    rw [List.append_assoc, List.singleton_append, placeholder?_lead _ hpad (isPad_of_sigil? hc),
      hc]
    exact hr ▸ hx

end Placeholder

open Placeholder in
/-- A placeholder is what the text begins with, and is not empty. -/
theorem placeholder?_sound : Recogniser.Sound placeholder? := by
  intro s x h
  obtain ⟨_, _, _, _, _, _, rest, -, -, -, -, hs, hx⟩ := placeholder?_cases h
  exact ⟨by simp [hx], ⟨rest, hs.symm⟩⟩

/-! ### Where the search for a placeholder ends -/

open Placeholder in
/-- A placeholder is found or not whatever stands behind, if reading never passes the place
between. -/
theorem placeholder?_append_unread {t : Text} (h : Unread t)
    (hlead : ∃ c u, t = c :: u ∧ isPad c = false ∧ sigil? c = none)
    (hsingle : ∀ c, placeholder? (c :: t) = none) {s : Text} (hs : s ≠ []) :
    placeholder? (s ++ t) = placeholder? s := by
  rcases s with _ | ⟨a, _ | ⟨b, s⟩⟩
  · exact absurd rfl hs
  · have hnone : placeholder? [a] = none := by simp [placeholder?]
    exact (hsingle a).trans hnone.symm
  · by_cases hab : a = '\x7b' ∧ b = '\x7b'
    · obtain ⟨rfl, rfl⟩ := hab
      by_cases hpad : Padding s
      · -- Nothing but blanks up to there.
        obtain ⟨c, u, rfl, hc, hsigil⟩ := hlead
        have hnone : placeholder? ('\x7b' :: '\x7b' :: s) = none := by
          simp [placeholder?, List.dropWhile_eq_nil_iff.mpr hpad]
        rw [hnone, List.cons_append, List.cons_append, placeholder?_lead _ hpad hc, hsigil,
          (h [] .empty).1, Option.bind_none]
      · obtain ⟨pad, c, u, rfl, hpad, hc⟩ := exists_padding_append hpad
        rw [List.cons_append, List.cons_append, List.append_assoc, List.cons_append,
          placeholder?_lead _ hpad hc, placeholder?_lead _ hpad hc, interior_append_unread h,
          ← List.cons_append, interior_append_unread h]
    · unfold placeholder?
      split <;> simp_all

open Placeholder in
/-- The search for a placeholder ends at a character that stands in none. -/
theorem placeholder?_stopsAt {c : Char} (hpath : isPathChar c = false) (hopen : c ≠ '\x7b')
    (hclose : c ≠ '\x7d') (hsigil : sigil? c = none) : Recogniser.StopsAt placeholder? c := by
  intro s t
  rcases s with _ | ⟨a, s⟩
  · simp [placeholder?, hopen]
  · have hpad : isPad c = false := by
      simp only [isPathChar, Bool.or_eq_false_iff, decide_eq_false_iff_not] at hpath
      simp [isPad, hpath]
    have hsingle : ∀ d, placeholder? (d :: c :: t) = none := by simp [placeholder?, hopen]
    exact placeholder?_append_unread (unread_cons hpath hopen hclose t) ⟨c, t, rfl, hpad, hsigil⟩
      hsingle (List.cons_ne_nil a s)

/-- A placeholder ends on its line, and so does the search for one. -/
theorem placeholder?_newline : Recogniser.StopsAt placeholder? '\n' :=
  placeholder?_stopsAt (by decide) (by decide) (by decide) (by decide)

/-! ### Plain paths -/

open Placeholder in
/-- A placeholder with no reference in its path has nothing but plain text there. -/
theorem placeholder?_literal_of_not_nested {s : Text} {x : Lexeme} (h : placeholder? s = some x)
    (hplain : x.path.isNested = false) : ∃ u, x.path = .literal u := by
  obtain ⟨_, _, _, t, r, p, _, -, ht, hp, -, -, rfl⟩ := placeholder?_cases h
  obtain ⟨hne, rfl⟩ := Level.path?_eq_some_iff.mp hp
  have hr := ht.wellFormed Level.wellFormed_empty
  obtain ⟨hparts, hpending⟩ := hr.plain ((Level.isNested_allParts r _).symm.trans hplain)
  have hpath : r.path ≠ [] := fun h => hne (by rw [h]; rfl)
  refine ⟨r.path, ?_⟩
  simp [Path.literal, Level.allParts, hparts, hpending, hpath]

open Placeholder in
/-- Without a brace in its path as written, a placeholder has nothing but plain text
in its path. -/
theorem placeholder?_literal {s : Text} {x : Lexeme} (h : placeholder? s = some x)
    (hraw : '\x7b' ∉ x.path.raw) : ∃ u, x.path = .literal u := by
  refine placeholder?_literal_of_not_nested h ?_
  obtain ⟨_, _, _, t, r, p, _, -, ht, hp, -, -, rfl⟩ := placeholder?_cases h
  obtain ⟨-, rfl⟩ := Level.path?_eq_some_iff.mp hp
  have hr := ht.wellFormed Level.wellFormed_empty
  -- A reference would have left its braces in the interior, and trimming keeps them.
  rw [Level.isNested_allParts, Bool.eq_false_iff]
  intro href
  have hmem : '\x7b' ∈ t := by simpa [href] using ht.hasRef_iff
  have hwritten : r.written = t := by simpa using ht.written_eq
  rw [← hwritten] at hmem
  exact hraw (hr.trim_path ▸ Text.mem_trim (by decide) hmem)

theorem exists_of_mem_tokens_scanFrom {recognise : Recogniser} {m : Mark} {skip : Nat} {s : Text}
    {t : Token} (h : t ∈ (scanFrom recognise m skip s).tokens) :
    ∃ u x m', recognise u = some x ∧ t = x.token m' := by
  induction s generalizing m skip with
  | nil => simp [scanFrom, Segments.tokens] at h
  | cons c s ih =>
    rcases skip with _ | skip
    · rw [scanFrom] at h
      rcases hx : recognise (c :: s) with _ | x
      · rw [hx] at h
        exact ih (by simpa using h)
      · rw [hx] at h
        rcases List.mem_cons.mp h with rfl | h
        · exact ⟨c :: s, x, m, hx, rfl⟩
        · exact ih h
    · exact ih h

theorem literal_of_mem_placeholders {source : Text} {t : Token}
    (h : t ∈ (placeholders source).tokens) (hraw : '\x7b' ∉ t.path.raw) :
    ∃ u, t.path = .literal u := by
  obtain ⟨s, x, m, hx, rfl⟩ := exists_of_mem_tokens_scanFrom h
  exact placeholder?_literal hx hraw

theorem literal_of_not_nested {source : Text} {t : Token}
    (h : t ∈ (placeholders source).tokens) (hplain : t.path.isNested = false) :
    ∃ u, t.path = .literal u := by
  obtain ⟨s, x, m, hx, rfl⟩ := exists_of_mem_tokens_scanFrom h
  exact placeholder?_literal_of_not_nested hx hplain

end ConfigTemplate
