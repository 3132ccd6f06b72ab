/-
Tags of sections next to other text.

What stands behind a text may take part in a placeholder that begins in the text.  A tag
does not: a placeholder with a sigil is never nested in another one, so the search for one
that began earlier ends at the tag.

* `unread_sigil`, `placeholder?_sigil`: reading never passes braces with a sigil;
* `exists_tag`: the tag of a section with a plain name is one placeholder;
* `scanFrom_tagged`: so what stands in a section is cut as it is by itself.
-/
import ConfigTemplate.Proofs.Reference.Grammar

namespace ConfigTemplate

namespace Placeholder

theorem isPathChar_of_sigil? {c : Char} {kind : Kind} (h : sigil? c = some kind) :
    isPathChar c = false := by
  rcases hc : isPathChar c with _ | _
  · rfl
  · rw [sigil?_of_isPathChar hc] at h
    cases h

section

variable {c : Char} {kind : Kind} (h : sigil? c = some kind)

include h

theorem interior_of_sigil? (outer : List Level) (l : Level) (s : Text) :
    interior outer l (c :: s) = none := by
  have hmem := (sigil?_eq_some_iff.mp h).1
  have hc := isPathChar_of_sigil? h
  simp only [List.mem_cons, List.not_mem_nil, or_false] at hmem
  rcases hmem with rfl | rfl | rfl | rfl <;> simp [interior, hc]

/-- A brace in front of a sigil is no pair of braces. -/
theorem interior_brace_sigil (outer : List Level) (l : Level) (s : Text) :
    interior outer l ('\x7b' :: c :: s) = none := by
  have hc : c ≠ '\x7b' := by
    rintro rfl
    cases h
  rw [interior, if_neg (by decide)]
  · exact fun u _ hu => hc (List.cons.inj hu).1
  · exact fun u hb _ => absurd hb (by decide)

/-- Reading never passes braces with a sigil. -/
theorem unread_sigil (t : Text) : Unread ('\x7b' :: '\x7b' :: c :: t) := by
  intro outer l
  constructor
  · by_cases hd : outer.length + 1 < maxNesting
    · rw [interior_opening _ _ _ hd, interior_of_sigil? h]
    · simp [interior, hd, show isPathChar '\x7b' = false by decide]
  · intro d hd
    by_cases hb : d = '\x7b'
    · -- A brace in front may open a level with the first of the two.
      subst hb
      by_cases hdepth : outer.length + 1 < maxNesting
      · rw [interior_opening _ _ _ hdepth, interior_brace_sigil h]
      · simp [interior, hdepth, hd]
    · rw [interior, if_neg (by simp [hd])]
      · exact fun u hb' _ => hb hb'
      · exact fun u _ hu => absurd (List.cons.inj hu).1 (by decide)

end

end Placeholder

open Placeholder in
/-- **The search for a placeholder ends at braces with a sigil.** -/
theorem placeholder?_sigil {c : Char} {kind : Kind} (h : sigil? c = some kind) {s : Text}
    (hs : s ≠ []) (t : Text) :
    placeholder? (s ++ '\x7b' :: '\x7b' :: c :: t) = placeholder? s := by
  refine placeholder?_append_unread (unread_sigil h t) ⟨'\x7b', _, rfl, by decide, by decide⟩
    (fun a => ?_) hs
  by_cases ha : a = '\x7b'
  · subst ha
    have hbrace : isPad '\x7b' = false := by decide
    have hlead := placeholder?_lead (c :: t) padding_nil hbrace
    have hsigil : sigil? '\x7b' = none := by decide
    rwa [hsigil, interior_brace_sigil h] at hlead
  · simp [placeholder?, ha]

/-! ### Tags -/

/-- What a section may be named without references: a path that is trimmed already. -/
structure PlainName (name : Text) : Prop where
  nonempty : name ≠ []
  chars : ∀ c ∈ name, Placeholder.isPathChar c = true
  trim : name.trim = name

/-- A tag with the sigil `c`. -/
def tagText (c : Char) (name : Text) : Text :=
  '\x7b' :: '\x7b' :: c :: (name ++ ['\x7d', '\x7d'])

/-- A section with its tags. -/
def sectionText (name body : Text) : Text :=
  tagText '#' name ++ body ++ tagText '/' name

/-- A section that is drawn where the other one is not, with its tags. -/
def invertedText (name body : Text) : Text :=
  tagText '^' name ++ body ++ tagText '/' name

open Placeholder in
/-- **The tag of a section with a plain name is one placeholder**, whatever stands behind
it. -/
theorem exists_tag {name : Text} (hname : PlainName name) {c : Char} {kind : Kind}
    (hc : sigil? c = some kind) (rest : Text) :
    ∃ x : Lexeme, placeholder? (tagText c name ++ rest) = some x ∧ x.kind = kind ∧
      x.path.raw = name ∧ x.text = tagText c name := by
  obtain ⟨hmem, hkind⟩ := sigil?_eq_some_iff.mp hc
  have hitems : Items 0 false name := items_of_isPathChar hname.chars
  have hblank : ¬ Padding name := by
    rw [← hitems.trim_eq_nil_iff, hname.trim]
    exact hname.nonempty
  have hform := Form.sigil hmem padding_nil padding_nil hitems hblank fun _ => rfl
  obtain ⟨x, hx, hshape⟩ := placeholder?_of_form hform rest
  refine ⟨x, hx, (congrArg Shape.kind hshape).trans (hkind false), ?_, congrArg Shape.text hshape⟩
  exact (congrArg Shape.raw hshape).trans hname.trim

open Placeholder in
/-- **What stands between two tags is cut as it is by itself**, but for the places, and so is
what stands behind them. -/
theorem scanFrom_tagged {name : Text} (hname : PlainName name) {c : Char} {kind : Kind}
    (hc : sigil? c = some kind) (body rest : Text) (m : Mark) :
    ∃ tag closing : Token, ∃ m' m'' : Mark,
      tag.kind = kind ∧ tag.path.raw = name ∧
      closing.kind = .closing ∧ closing.path.raw = name ∧
      scanFrom placeholder? m 0 (tagText c name ++ body ++ tagText '/' name ++ rest) =
        .before [] tag ((scanFrom placeholder? m' 0 body).append
          (.before [] closing (scanFrom placeholder? m'' 0 rest))) := by
  obtain ⟨x, hx, hxkind, hxraw, hxtext⟩ :=
    exists_tag hname hc (body ++ (tagText '/' name ++ rest))
  obtain ⟨y, hy, hykind, hyraw, hytext⟩ :=
    exists_tag hname (rfl : sigil? '/' = some .closing) rest
  have hcut : ∀ v, v <:+ body → v ≠ [] →
      placeholder? (v ++ (tagText '/' name ++ rest)) = placeholder? v := fun v _ hv =>
    placeholder?_sigil (rfl : sigil? '/' = some .closing) hv _
  rw [← hxtext] at hx
  rw [← hytext] at hy
  refine ⟨x.token m, y.token ((m.past x.text).past body), m.past x.text,
    ((m.past x.text).past body).past y.text, hxkind, hxraw, hykind, hyraw, ?_⟩
  rw [List.append_assoc, List.append_assoc, ← hxtext,
    scanFrom_found (placeholder?_sound _ _ hx).1 hx,
    scanFrom_append placeholder?_sound hcut _ (Nat.zero_le _), ← hytext,
    scanFrom_found (placeholder?_sound _ _ hy).1 hy]

theorem scanFrom_section {name : Text} (hname : PlainName name) (body rest : Text) (m : Mark) :
    ∃ tag closing : Token, ∃ m' m'' : Mark,
      tag.kind = .opening ∧ tag.path.raw = name ∧
      closing.kind = .closing ∧ closing.path.raw = name ∧
      scanFrom placeholder? m 0 (sectionText name body ++ rest) =
        .before [] tag ((scanFrom placeholder? m' 0 body).append
          (.before [] closing (scanFrom placeholder? m'' 0 rest))) :=
  scanFrom_tagged hname rfl body rest m

end ConfigTemplate
