/-
The grammar of placeholders.

`Form d` lists the texts that are placeholders at depth `d`, and `Items d` what
may stand between their braces: characters of paths and placeholders one level
deeper.  Both are said without the machine that reads them.

* `Items.exists_reads`, `Reads.items`: a level reads exactly the strings of items;
* `recognises_language`: so `placeholder?` knows the language of the grammar, the
  kind and the path of a placeholder included;
* `placeholders_iff_leftmost`: at most one placeholder begins a text, and the
  placeholders of a text are those of its leftmost reading.

Design notes: the grammar lets blanks stand both beside braces and among the
items, so a text has many derivations.  `Items.induct` is induction with the
blanks among the items, and `Items.dropWhile` takes them out again.
-/
import ConfigTemplate.Proofs.Reference.Leftmost
import ConfigTemplate.Proofs.Reference.Placeholder

namespace ConfigTemplate

namespace Placeholder

mutual

/-- `Form d sigil interior nested text`: the text is a placeholder at depth `d`,
with that sigil, the interior behind the sigil, and perhaps placeholders in it. -/
inductive Form : (depth : Nat) → (sigil : Option Char) → (interior : Text) →
    (nested : Bool) → (text : Text) → Prop
  | plain {d : Nat} {pad items : Text} {nested : Bool} (hpad : Padding pad)
      (hitems : Items d nested items) (hblank : ¬ Padding items) :
      Form d none (pad ++ items) nested
        ('\x7b' :: '\x7b' :: (pad ++ items ++ ['\x7d', '\x7d']))
  | sigil {pad pad' items : Text} {c : Char} {nested : Bool} (hc : c ∈ ['#', '^', '/', '&'])
      (hpad : Padding pad) (hpad' : Padding pad') (hitems : Items 0 nested items)
      (hblank : ¬ Padding items) (hnested : c ≠ '&' → nested = false) :
      Form 0 (some c) (pad' ++ items) nested
        ('\x7b' :: '\x7b' :: (pad ++ c :: (pad' ++ items) ++ ['\x7d', '\x7d']))

/-- `Items d nested text`: the text is a string of items at depth `d`, perhaps with
placeholders among them. -/
inductive Items : (depth : Nat) → (nested : Bool) → (text : Text) → Prop
  | nil {d : Nat} : Items d false []
  | char {d : Nat} {nested : Bool} {c : Char} {s : Text} (hc : isPathChar c = true)
      (h : Items d nested s) : Items d nested (c :: s)
  | placeholder {d : Nat} {sigil : Option Char} {interior s t : Text} {nested nested' : Bool}
      (hd : d + 1 < maxNesting) (ht : Form (d + 1) sigil interior nested' t)
      (h : Items d nested s) : Items d true (t ++ s)

end

/-- Whether a text is a placeholder at depth `d`. -/
def InGrammar (d : Nat) (text : Text) : Prop :=
  ∃ sigil interior nested, Form d sigil interior nested text

/-- The kind of a placeholder. -/
def kindOf (sigil : Option Char) (nested : Bool) : Kind :=
  match sigil with
  | some '#' => .opening
  | some '^' => .inverted
  | some '/' => .closing
  | some '&' => .ampersand
  | _ => if nested then .composed else .name

/-- The outermost placeholders of the grammar, with what their sigils and their
items make of them. -/
def language (x : Shape) : Prop :=
  ∃ sigil interior nested, Form 0 sigil interior nested x.text ∧ x.kind = kindOf sigil nested ∧
    x.raw = interior.trim

/-! ### Strings of items -/

theorem isPathChar_of_isPad {c : Char} (h : isPad c = true) : isPathChar c = true := by
  simp only [isPad, Bool.or_eq_true, decide_eq_true_eq] at h
  rcases h with rfl | rfl <;> decide

theorem isPad_of_isBlank {c : Char} (hc : isPathChar c = true) (hb : Text.isBlank c = true) :
    isPad c = true := by
  simp only [isPathChar, Bool.or_eq_true, decide_eq_true_eq] at hc
  rcases hc with ((((hc | rfl) | rfl) | rfl) | rfl) | rfl
  · -- Letters and digits are no blanks, by their codes.
    have hranges : ((decide (c.val ≥ 'A'.val ∧ c.val ≤ 'Z'.val) ||
        (c.val ≥ 'a'.val && c.val ≤ 'z'.val)) || (c.val ≥ '0'.val && c.val ≤ '9'.val)) = true := hc
    simp only [Bool.or_eq_true, Bool.and_eq_true, decide_eq_true_eq, ge_iff_le,
      UInt32.le_iff_toNat_le, Char.reduceVal, UInt32.reduceToNat] at hranges
    simp only [Text.isBlank, Bool.or_eq_true, Bool.and_eq_true, decide_eq_true_eq, beq_iff_eq,
      Char.toNat] at hb
    omega
  · exact absurd hb (by decide)
  · exact absurd hb (by decide)
  · exact absurd hb (by decide)
  · decide
  · decide

/-- Plain text is a string of items without placeholders. -/
theorem items_of_isPathChar {d : Nat} {s : Text} (h : ∀ c ∈ s, isPathChar c = true) :
    Items d false s := by
  induction s with
  | nil => exact .nil
  | cons c s ih =>
    obtain ⟨hc, hs⟩ := List.forall_mem_cons.mp h
    exact .char hc (ih hs)

theorem Items.padding_append {d : Nat} {nested : Bool} {pad s : Text} (hpad : Padding pad)
    (h : Items d nested s) : Items d nested (pad ++ s) := by
  induction pad with
  | nil => exact h
  | cons c pad ih =>
    exact .char (isPathChar_of_isPad (hpad c List.mem_cons_self))
      (ih fun x hx => hpad x (List.mem_cons_of_mem _ hx))

theorem not_padding_append {pad s : Text} (h : ¬ Padding s) : ¬ Padding (pad ++ s) :=
  fun hp => h fun c hc => hp c (List.mem_append_right _ hc)

/-- A nested placeholder among items, with its blanks among its own items. -/
theorem Items.ref {d : Nat} {nested nested' : Bool} {t s : Text} (hd : d + 1 < maxNesting)
    (ht : Items (d + 1) nested' t) (hblank : ¬ Padding t) (hs : Items d nested s) :
    Items d true ('\x7b' :: '\x7b' :: (t ++ '\x7d' :: '\x7d' :: s)) := by
  simpa using Items.placeholder hd (.plain padding_nil ht hblank) hs

/-- Induction over strings of items, with the blanks of nested placeholders among
their items. -/
theorem Items.induct {motive : (d : Nat) → (nested : Bool) → (s : Text) → Items d nested s → Prop}
    (nil : ∀ d, motive d false [] .nil)
    (char : ∀ d nested c s (hc : isPathChar c = true) (h : Items d nested s),
      motive d nested s h → motive d nested (c :: s) (.char hc h))
    (ref : ∀ d nested nested' t s (hd : d + 1 < maxNesting) (ht : Items (d + 1) nested' t)
      (hblank : ¬ Padding t) (hs : Items d nested s), motive (d + 1) nested' t ht →
      motive d nested s hs → motive d true _ (.ref hd ht hblank hs))
    {d : Nat} {nested : Bool} {s : Text} (h : Items d nested s) : motive d nested s h := by
  -- The motive of a placeholder is that of its interior, if it is a nested one.
  refine Items.rec
    (motive_1 := fun d _ _ nested text _ => 0 < d → ∃ t, ∃ ht : Items d nested t,
      text = '\x7b' :: '\x7b' :: (t ++ ['\x7d', '\x7d']) ∧ ¬ Padding t ∧ motive d nested t ht)
    (motive_2 := motive) ?_ ?_ ?_ ?_ ?_ h
  · intro d pad items nested hpad hitems hblank ih _
    refine ⟨pad ++ items, hitems.padding_append hpad, rfl, not_padding_append hblank, ?_⟩
    clear hblank
    induction pad with
    | nil => exact ih
    | cons c pad ihp =>
      have hpad' : Padding pad := fun x hx => hpad x (List.mem_cons_of_mem _ hx)
      exact char _ _ _ _ (isPathChar_of_isPad (hpad c List.mem_cons_self))
        (hitems.padding_append hpad') (ihp hpad')
  · intro pad pad' items c nested _ _ _ _ _ _ _ hd
    exact absurd hd (Nat.lt_irrefl 0)
  · exact nil _
  · intro d nested c s hc h ih
    exact char d nested c s hc h ih
  · intro d sigil interior s t nested nested' hd _ h ihform ih
    obtain ⟨t, ht, rfl, hblank, hm⟩ := ihform (Nat.succ_pos d)
    have key := ref d nested nested' t s hd ht hblank h hm ih
    simpa using key

theorem Items.nested_iff {d : Nat} {nested : Bool} {s : Text} (h : Items d nested s) :
    nested = true ↔ '\x7b' ∈ s := by
  induction h using Items.induct with
  | nil => simp
  | char d nested c s hc _ ih =>
    have ho : '\x7b' ≠ c := (ne_of_isPathChar hc rfl).symm
    simp [ih, ho]
  | ref => simp

theorem Items.isPad_of_isBlank {d : Nat} {nested : Bool} {s : Text} (h : Items d nested s) :
    ∀ c ∈ s, Text.isBlank c = true → isPad c = true := by
  induction h using Items.induct with
  | nil => simp
  | char d nested c s hc _ ih =>
    exact List.forall_mem_cons.mpr ⟨Placeholder.isPad_of_isBlank hc, ih⟩
  | ref d nested nested' t s _ _ _ _ iht ihs =>
    intro c hc hb
    simp only [List.mem_cons, List.mem_append] at hc
    rcases hc with rfl | rfl | hc | rfl | rfl | hc
    · exact absurd hb (by decide)
    · exact absurd hb (by decide)
    · exact iht c hc hb
    · exact absurd hb (by decide)
    · exact absurd hb (by decide)
    · exact ihs c hc hb

theorem Items.trim_eq_nil_iff {d : Nat} {nested : Bool} {s : Text} (h : Items d nested s) :
    s.trim = [] ↔ Padding s := by
  rw [Text.trim_eq_nil_iff]
  exact ⟨fun hb c hc => h.isPad_of_isBlank c hc (hb c hc),
    fun hp c hc => isBlank_of_isPad (hp c hc)⟩

theorem Items.dropWhile {d : Nat} {nested : Bool} {s : Text} (h : Items d nested s) :
    Items d nested (s.dropWhile isPad) := by
  induction h using Items.induct with
  | nil => exact .nil
  | char d nested c s hc h ih =>
    by_cases hp : isPad c = true
    · rw [List.dropWhile_cons_of_pos hp]
      exact ih
    · rw [List.dropWhile_cons_of_neg hp]
      exact .char hc h
  | ref d nested nested' t s hd ht hblank hs =>
    rw [List.dropWhile_cons_of_neg (by decide)]
    exact .ref hd ht hblank hs

/-! ### Reading strings of items -/

/-- Every string of items can be read, whatever was read before. -/
theorem Items.exists_reads {d : Nat} {nested : Bool} {s : Text} (h : Items d nested s)
    (l : Level) : ∃ r, Reads d l s r := by
  induction h using Items.induct generalizing l with
  | nil => exact ⟨l, .done⟩
  | char d nested c s hc _ ih =>
    obtain ⟨r, hr⟩ := ih (l.push c)
    exact ⟨r, .char hc hr⟩
  | ref d nested nested' t s hd ht hblank _ iht ihs =>
    obtain ⟨i, hi⟩ := iht .empty
    -- Its braces close, since it has read more than blanks.
    have hp : i.path? = some ⟨i.path.trim, i.allParts⟩ := by
      refine Level.path?_eq_some_iff.mpr ⟨?_, rfl⟩
      rw [(hi.wellFormed Level.wellFormed_empty).trim_path, hi.written_eq]
      exact fun he => hblank (ht.trim_eq_nil_iff.mp he)
    obtain ⟨r, hr⟩ := ihs (l.pushRef _ i.text)
    exact ⟨r, .ref hd hi hp hr⟩

/-- Whatever can be read is a string of items. -/
theorem Reads.exists_items {d : Nat} {l r : Level} {s : Text} (h : Reads d l s r) :
    ∃ nested, Items d nested s := by
  induction h with
  | done => exact ⟨false, .nil⟩
  | char hc _ ih =>
    obtain ⟨nested, hs⟩ := ih
    exact ⟨nested, .char hc hs⟩
  | @ref d l l' i p t s hd hi hp _ iht ihs =>
    obtain ⟨nested', ht⟩ := iht
    obtain ⟨nested, hs⟩ := ihs
    refine ⟨true, .ref hd ht (fun hpad => ?_) hs⟩
    apply (Level.path?_eq_some_iff.mp hp).1
    rw [(hi.wellFormed Level.wellFormed_empty).trim_path, hi.written_eq]
    exact ht.trim_eq_nil_iff.mpr hpad

/-- What a level that has read items knows of them: the trimmed items are the path
as written, and it has references if they have placeholders. -/
theorem Reads.path?_iff {d : Nat} {nested : Bool} {t : Text} {r : Level} {p : Path}
    (h : Reads d .empty t r) (ht : Items d nested t) :
    r.path? = some p ↔ ¬ Padding t ∧ p = ⟨t.trim, r.allParts⟩ := by
  have htrim : r.path.trim = t.trim := by
    rw [(h.wellFormed Level.wellFormed_empty).trim_path, h.written_eq, Level.written_empty,
      List.nil_append]
  rw [Level.path?_eq_some_iff, htrim, ne_eq, ht.trim_eq_nil_iff]

theorem Reads.isNested_eq {nested : Bool} {t : Text} {r : Level}
    (h : Reads 0 .empty t r) (ht : Items 0 nested t) (raw : Text) :
    Path.isNested ⟨raw, r.allParts⟩ = nested := by
  rw [Level.isNested_allParts, Bool.eq_iff_iff, h.hasRef_iff, ht.nested_iff]
  simp

/-! ### The language of placeholders -/

theorem kindOf_eq {c : Char} (hc : c ∈ ['#', '^', '/', '&']) (nested nested' : Bool) :
    kindOf (some c) nested = kindOf (some c) nested' := by
  simp only [List.mem_cons, List.not_mem_nil, or_false] at hc
  rcases hc with rfl | rfl | rfl | rfl <;> rfl

theorem sigil?_eq_some_iff {c : Char} {kind : Kind} :
    sigil? c = some kind ↔ c ∈ ['#', '^', '/', '&'] ∧ ∀ nested, kindOf (some c) nested = kind := by
  constructor
  · intro h
    unfold sigil? at h
    split_ifs at h with h1 h2 h3 h4
    all_goals
      subst c
      exact ⟨by decide, fun _ => Option.some.inj h⟩
  · rintro ⟨hc, hk⟩
    simp only [List.mem_cons, List.not_mem_nil, or_false] at hc
    rcases hc with rfl | rfl | rfl | rfl <;> exact congrArg some (hk false)

theorem mayNest_kindOf {c : Char} (hc : c ∈ ['#', '^', '/', '&']) (nested : Bool) :
    mayNest (kindOf (some c) nested) = true ↔ c = '&' := by
  simp only [List.mem_cons, List.not_mem_nil, or_false] at hc
  rcases hc with rfl | rfl | rfl | rfl <;> simp [kindOf, mayNest]

theorem language_of_placeholder? {s : Text} {x : Lexeme} (h : placeholder? s = some x) :
    language x.shape := by
  obtain ⟨lead, sigil, kind, t, r, p, rest, hlead, ht, hp, hnest, -, rfl⟩ := placeholder?_cases h
  obtain ⟨nested, hitems⟩ := ht.exists_items
  obtain ⟨hblank, rfl⟩ := (ht.path?_iff hitems).mp hp
  rw [ht.isNested_eq hitems] at hnest
  cases hlead with
  | plain hpad =>
    -- The blanks of the lead are trimmed from the path.
    refine ⟨none, lead ++ t, nested, .plain hpad hitems hblank, ?_,
      (trim_padding_append hpad t).symm⟩
    simp only [Lexeme.shape, plainKind, ht.isNested_eq hitems, kindOf]
  | @sigil pad c k hpad hc =>
    obtain ⟨hmem, hk⟩ := sigil?_eq_some_iff.mp hc
    have hnested : c ≠ '&' → nested = false := by
      intro hne
      rcases nested with _ | _
      · rfl
      · exact absurd ((mayNest_kindOf hmem true).mp (hk true ▸ hnest rfl)) hne
    -- The blanks behind the sigil have been read as items.
    refine ⟨some c, [] ++ t, nested, ?_, (hk nested).symm, rfl⟩
    have hform := Form.sigil hmem hpad padding_nil hitems hblank hnested
    simpa [Lexeme.shape] using hform

/-- Whatever is in the language is recognised, whatever comes behind it. -/
theorem placeholder?_of_form {sigil : Option Char} {interior t : Text} {nested : Bool}
    (h : Form 0 sigil interior nested t) (rest : Text) :
    ∃ x, placeholder? (t ++ rest) = some x ∧ x.shape = ⟨kindOf sigil nested, interior.trim, t⟩ := by
  cases h with
  | @plain _ pad items _ hpad hitems hblank =>
    -- The recogniser takes all blanks beside the braces, also those among the items.
    obtain ⟨pad', c, u, rfl, hpad', hc⟩ := exists_padding_append hblank
    have hitems' : Items 0 nested (c :: u) := by
      have := hitems.dropWhile
      rwa [List.dropWhile_append_of_pos hpad', List.dropWhile_cons_of_neg (by simp [hc])] at this
    have hblank' : ¬ Padding (c :: u) := fun hp => by simpa [hc] using hp c List.mem_cons_self
    obtain ⟨r, hr⟩ := hitems'.exists_reads .empty
    have hp := (hr.path?_iff hitems').mpr ⟨hblank', rfl⟩
    have hpads : Padding (pad ++ pad') := fun x hx =>
      (List.mem_append.mp hx).elim (hpad x) (hpad' x)
    have hfound := placeholder?_append (.plain hpads) hr (fun _ => ⟨c, u, rfl, hc⟩) hp
      (fun hn => by simp [plainKind, hn, mayNest]) rest
    have htrim : Text.trim (pad ++ (pad' ++ c :: u)) = Text.trim (c :: u) := by
      rw [← List.append_assoc, trim_padding_append hpads]
    refine ⟨_, by simpa using hfound, ?_⟩
    simp [Lexeme.shape, plainKind, hr.isNested_eq hitems', kindOf, htrim]
  | @sigil pad pad' items c _ hmem hpad hpad' hitems hblank hnested =>
    have hitems' := hitems.padding_append hpad'
    obtain ⟨r, hr⟩ := hitems'.exists_reads .empty
    have hp := (hr.path?_iff hitems').mpr ⟨not_padding_append hblank, rfl⟩
    have hnest : nested = true → mayNest (kindOf (some c) nested) = true := fun hn =>
      (mayNest_kindOf hmem nested).mpr (by_contra fun hne => by simp [hnested hne] at hn)
    have hkind : sigil? c = some (kindOf (some c) nested) :=
      sigil?_eq_some_iff.mpr ⟨hmem, fun _ => (kindOf_eq hmem _ _)⟩
    have hfound := placeholder?_append (.sigil hpad hkind) hr (by simp) hp
      (fun hn => hnest (hr.isNested_eq hitems' _ ▸ hn)) rest
    refine ⟨_, by simpa using hfound, ?_⟩
    simp [Lexeme.shape]

theorem recognises_language : Recogniser.Recognises placeholder? language where
  nonempty := by
    rintro x ⟨sigil, interior, nested, h, -, -⟩ hx
    obtain ⟨y, hy, hshape⟩ := placeholder?_of_form h []
    have hne := (placeholder?_sound _ _ hy).1
    exact hne ((congrArg Shape.text hshape).trans hx)
  sound h := ⟨language_of_placeholder? h, (placeholder?_sound _ _ h).2⟩
  complete := by
    rintro s x ⟨sigil, interior, nested, h, hkind, hraw⟩ ⟨rest, rfl⟩
    obtain ⟨l, hl, hshape⟩ := placeholder?_of_form h rest
    exact ⟨l, hl, by rw [hshape, ← hkind, ← hraw]⟩

end Placeholder

open Placeholder in
/-- **The placeholders of a text are those of the grammar.**  Wherever one looks, at
most one placeholder begins there, and the tokens are the leftmost reading: each
begins at the first place behind the token before it where a placeholder begins,
and it has that placeholder as its text, with its kind, its path as written and
its place. -/
theorem placeholders_iff_leftmost (source : Text) :
    (∀ before rest t u, source = before ++ rest → InGrammar 0 t → InGrammar 0 u →
      t <+: rest → u <+: rest → t = u) ∧
    ∀ ts, Leftmost language [] source ts ↔
      ts = (placeholders source).tokens.map Token.sighting := by
  refine ⟨?_, leftmost_iff recognises_language source⟩
  rintro before rest t u - ⟨σ, i, n, ht⟩ ⟨σ', i', n', hu⟩ htr hur
  have hx : language ⟨kindOf σ n, i.trim, t⟩ := ⟨σ, i, n, ht, rfl, rfl⟩
  have hy : language ⟨kindOf σ' n', i'.trim, u⟩ := ⟨σ', i', n', hu, rfl, rfl⟩
  exact congrArg Shape.text (recognises_language.unique hx hy htr hur)

end ConfigTemplate
