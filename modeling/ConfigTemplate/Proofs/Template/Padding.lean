/-
Blanks just inside the braces.

A path may be written with blanks behind its opening braces, before its closing ones and around
its sigil, and each path nested in it with blanks of its own.

* `Path.Padded`, `Path.PaddedTag`: the texts that a path may be written as;
* `exists_reads_padded`: reading such a text leads to a level that spells what the path does;
* `Level.Spells.resolvePath_eq`: trimming takes the blanks out again wherever it is resolved;
* `placeholder?_padded`: so the text is one placeholder, with a path that resolves alike;
* `padding_irrelevant`: no two such texts can be told apart by resolving them.

Design notes: a blank may end up in the pad of a level, in a text or in a part of its own, so
the paths that are read are not equal.  What they have in common is their splice, with the
pad in front; `Level.Spells` says so, and each step of the reader keeps it.
-/
import ConfigTemplate.Proofs.Reference.Printing
import ConfigTemplate.Proofs.Template.PostOrder

namespace ConfigTemplate

open Placeholder

/-! ### Texts of a path -/

/-- Whether a path can be written: its texts are characters of paths, and at no level is there
nothing but blanks. -/
inductive Path.Writable : Path → Prop
  | intro {raw : Text} {parts : List Part}
      (htexts : ∀ s, .text s ∈ parts → ∀ c ∈ s, isPathChar c = true)
      (hsolid : ∃ part ∈ parts, ∀ s, part = .text s → ¬ Padding s)
      (hrefs : ∀ p, .ref p ∈ parts → Writable p) : Writable ⟨raw, parts⟩

mutual

/-- `Path.Padded p t`: the text is the path in its braces, with blanks just inside all of
them. -/
inductive Path.Padded : Path → Text → Prop
  | intro {raw s pad pad' : Text} {parts : List Part} (hpad : Padding pad) (hpad' : Padding pad')
      (h : Part.Padded parts s) :
      Path.Padded ⟨raw, parts⟩ ('\x7b' :: '\x7b' :: (pad ++ s ++ pad' ++ ['\x7d', '\x7d']))

/-- `Part.Padded parts s`: the text is the parts in a row, with blanks just inside their
braces. -/
inductive Part.Padded : List Part → Text → Prop
  | nil : Part.Padded [] []
  | text {s t : Text} {parts : List Part} (h : Part.Padded parts t) :
      Part.Padded (.text s :: parts) (s ++ t)
  | ref {p : Path} {s t : Text} {parts : List Part} (hp : Path.Padded p s)
      (h : Part.Padded parts t) : Part.Padded (.ref p :: parts) (s ++ t)

end

/-- `Path.PaddedTag sigil p t`: the text is the path with that sigil, and with blanks around
the sigil as well. -/
inductive Path.PaddedTag : (sigil : Option Char) → Path → Text → Prop
  | plain {p : Path} {t : Text} (h : p.Padded t) : PaddedTag none p t
  | sigil {p : Path} {c : Char} {pad pad' pad'' s : Text} (hc : c ∈ ['#', '^', '/', '&'])
      (hpad : Padding pad) (hpad' : Padding pad') (hpad'' : Padding pad'')
      (h : Part.Padded p.parts s) :
      PaddedTag (some c) p
        ('\x7b' :: '\x7b' :: (pad ++ c :: (pad' ++ s ++ pad'') ++ ['\x7d', '\x7d']))

theorem Path.Writable.texts {p : Path} (h : p.Writable) :
    ∀ s, .text s ∈ p.parts → ∀ c ∈ s, isPathChar c = true := by
  obtain ⟨htexts, -, -⟩ := h
  exact htexts

theorem Path.Writable.solid {p : Path} (h : p.Writable) :
    ∃ part ∈ p.parts, ∀ s, part = .text s → ¬ Padding s := by
  obtain ⟨-, hsolid, -⟩ := h
  exact hsolid

theorem Path.Writable.of_ref {p q : Path} (h : p.Writable) (hq : .ref q ∈ p.parts) :
    q.Writable := by
  obtain ⟨-, -, hrefs⟩ := h
  exact hrefs q hq

theorem Path.Padded.exists_inside {p : Path} {t : Text} (h : p.Padded t) :
    ∃ pad s pad', t = '\x7b' :: '\x7b' :: (pad ++ s ++ pad' ++ ['\x7d', '\x7d']) ∧
      Padding pad ∧ Padding pad' ∧ Part.Padded p.parts s := by
  cases h with
  | intro hpad hpad' h => exact ⟨_, _, _, rfl, hpad, hpad', h⟩

/-- Without nested paths there are no braces for blanks to stand in. -/
theorem Part.Padded.eq_printParts {parts : List Part} {s : Text} (h : Part.Padded parts s)
    (hplain : parts.any Part.isRef = false) : s = Path.printParts parts := by
  induction parts generalizing s with
  | nil =>
    cases h
    rfl
  | cons part parts ih =>
    rw [List.any_cons, Bool.or_eq_false_iff] at hplain
    cases h with
    | text h => rw [ih h hplain.2, Path.printParts]
    | ref hp h => exact absurd hplain.1 (by simp [Part.isRef])

theorem Part.Padded.not_padding {parts : List Part} {s : Text} (h : Part.Padded parts s)
    (hsolid : ∃ part ∈ parts, ∀ s, part = .text s → ¬ Padding s) : ¬ Padding s := by
  obtain ⟨part, hpart, hsolid⟩ := hsolid
  induction parts generalizing s with
  | nil => cases hpart
  | cons head parts ih =>
    cases h with
    | ref hp h =>
      -- A nested path has braces, which are no blanks.
      obtain ⟨pad, u, pad', rfl, -⟩ := hp.exists_inside
      exact fun hpad => absurd (hpad '\x7b' (by simp)) (by decide)
    | text h =>
      intro hpad
      rcases List.mem_cons.mp hpart with rfl | hpart
      · exact hsolid _ rfl fun c hc => hpad c (List.mem_append_left _ hc)
      · exact ih h hpart fun c hc => hpad c (List.mem_append_right _ hc)

theorem Part.any_isRef_append_text (parts : List Part) (s : Text) :
    (parts ++ [Part.text s]).any isRef = parts.any isRef := by
  rw [List.any_append, List.any_cons, List.any_nil, Bool.or_false]
  exact Bool.or_false _

/-! ### What a level spells -/

namespace Placeholder

/-- `l.Spells parts`: behind its pad, what the level has read stands for the same as the parts
in every context. -/
structure Level.Spells (l : Level) (parts : List Part) : Prop where
  pad : Padding l.pad
  /-- Before the path has begun there is nothing of it. -/
  begun : l.path = [] → l.parts = [] ∧ l.pending = []
  nested : l.hasRef = parts.any Part.isRef
  splice : ∀ frames : Context,
    frames.splice (.text l.pad :: l.allParts) = frames.splice parts

theorem Level.spells_empty : Level.empty.Spells [] :=
  ⟨padding_nil, fun _ => ⟨rfl, rfl⟩, rfl, fun _ => rfl⟩

/-- Pending text is one more part, even if there is none. -/
theorem Level.splice_allParts (l : Level) (frames : Context) :
    frames.splice l.allParts = frames.splice (l.parts ++ [.text l.pending]) := by
  unfold allParts
  split
  · next h =>
    rw [List.isEmpty_iff.mp h, Context.splice_append_text]
    cases frames.splice l.parts <;> simp [Except.map]
  · rfl

section

variable {l : Level} {parts : List Part}

theorem Level.Spells.push (h : l.Spells parts) (c : Char) :
    (l.push c).Spells (parts ++ [.text [c]]) := by
  have hnested : (l.push c).hasRef = (parts ++ [Part.text [c]]).any Part.isRef := by
    rw [Level.hasRef_push, h.nested, Part.any_isRef_append_text]
  have hsplice : ∀ frames : Context, frames.splice (parts ++ [.text [c]]) =
      (frames.splice (l.parts ++ [.text l.pending])).map fun s => l.pad ++ s ++ [c] := by
    intro frames
    rw [Context.splice_append_text, ← h.splice, Context.splice_text, Level.splice_allParts]
    cases frames.splice (l.parts ++ [.text l.pending]) <;> rfl
  have hpush : ∀ frames : Context, frames.splice (.text (l.push c).pad :: (l.push c).allParts) =
      (frames.splice ((l.push c).parts ++ [.text (l.push c).pending])).map
        ((l.push c).pad ++ ·) := fun frames => by
    rw [Context.splice_text, Level.splice_allParts]
  by_cases hblank : (l.path.isEmpty && isPad c) = true
  · -- A blank in front of the path goes to the pad.
    have hl : l.push c = { l with pad := l.pad ++ [c] } := by rw [Level.push, if_pos hblank]
    rw [Bool.and_eq_true, List.isEmpty_iff] at hblank
    obtain ⟨hparts, hpending⟩ := h.begun hblank.1
    refine ⟨?_, fun _ => ?_, hnested, fun frames => ?_⟩
    · rw [hl]
      intro d hd
      rcases List.mem_append.mp hd with hd | hd
      · exact h.pad d hd
      · rw [List.mem_singleton.mp hd]
        exact hblank.2
    · rw [hl]
      exact ⟨hparts, hpending⟩
    · rw [hpush, hsplice, hl, hparts, hpending]
      simp [Context.splice, Except.map, bind, Except.bind]
  · have hl : l.push c = { l with path := l.path ++ [c], pending := l.pending ++ [c] } := by
      rw [Level.push, if_neg hblank]
    refine ⟨?_, fun hpath => ?_, hnested, fun frames => ?_⟩
    · rw [hl]
      exact h.pad
    · rw [hl] at hpath
      exact absurd hpath (by simp)
    · rw [hpush, hsplice, hl, Context.splice_append_text, Context.splice_append_text]
      cases frames.splice l.parts <;> simp [Except.map]

theorem Level.Spells.text (h : l.Spells parts) (s : Text) :
    (s.foldl Level.push l).Spells (parts ++ [.text s]) := by
  induction s generalizing l parts with
  | nil =>
    refine ⟨h.pad, h.begun, ?_, fun frames => ?_⟩
    · rw [List.foldl_nil, h.nested, Part.any_isRef_append_text]
    · rw [Context.splice_append_text, List.foldl_nil, h.splice]
      cases frames.splice parts <;> simp [Except.map]
  | cons c s ih =>
    have hrest := ih (h.push c)
    refine ⟨hrest.pad, hrest.begun, ?_, fun frames => ?_⟩
    · rw [List.foldl_cons, hrest.nested, Part.any_isRef_append_text, Part.any_isRef_append_text,
        Part.any_isRef_append_text]
    · rw [List.foldl_cons, hrest.splice, Context.splice_append_text, Context.splice_append_text,
        Context.splice_append_text]
      cases frames.splice parts <;> simp [Except.map]

theorem Level.Spells.pushRef (h : l.Spells parts) {p q : Path} {t : Text} (ht : t ≠ [])
    (hq : ∀ frames : Context, frames.resolve q = frames.resolve p) :
    (l.pushRef q t).Spells (parts ++ [.ref p]) where
  pad := h.pad
  begun hpath := absurd (List.append_eq_nil_iff.mp hpath).2 ht
  nested := by simp [Part.isRef]
  splice frames := by
    have hparts : (l.pushRef q t).allParts = l.allParts ++ [.ref q] := by
      simp [Level.allParts, Level.pushRef]
    have href : frames.splice [.ref q] = frames.splice [.ref p] := by
      rw [Context.splice_ref, Context.splice_ref, hq]
    rw [hparts, ← List.cons_append, Context.splice_append, Context.splice_append, href,
      ← h.splice frames]
    rfl

/-- **Trimming takes the blanks out again**: if a level spells parts with blanks around them,
its path resolves as the parts do. -/
theorem Level.Spells.resolvePath_eq {pad pad' : Text} (hpad : Padding pad) (hpad' : Padding pad')
    {p : Path} (h : l.Spells (.text pad :: p.parts ++ [.text pad'])) (raw : Text)
    (frames : Context) : frames.resolvePath ⟨raw, l.allParts⟩ = frames.resolvePath p := by
  have hblank : ∀ s : Text, Text.trim (pad ++ s ++ pad') = s.trim := fun s => by
    rw [Text.trim_append_blanks fun c hc => isBlank_of_isPad (hpad' c hc),
      trim_padding_append hpad]
  have hsplice := h.splice frames
  rw [Context.splice_text, Context.splice_append_text, Context.splice_text] at hsplice
  rw [Context.resolvePath_eq, Context.resolvePath_eq]
  calc (frames.splice l.allParts).map Text.trim
      = ((frames.splice l.allParts).map (l.pad ++ ·)).map Text.trim := by
        cases frames.splice l.allParts <;> simp [Except.map, trim_padding_append h.pad]
    _ = (((frames.splice p.parts).map (pad ++ ·)).map (· ++ pad')).map Text.trim := by
        rw [hsplice]
    _ = (frames.splice p.parts).map Text.trim := by
        cases frames.splice p.parts <;> simp only [Except.map, hblank]

end

/-! ### Reading with blanks -/

theorem Reads.append {d : Nat} {l m r : Level} {s t : Text} (h : Reads d l s m)
    (h' : Reads d m t r) : Reads d l (s ++ t) r := by
  induction h with
  | done => exact h'
  | char hc _ ih => exact .char hc (ih h')
  | ref hd hi hp _ _ ih => simpa using Reads.ref hd hi hp (ih h')

theorem reads_text {d : Nat} {s : Text} (hs : ∀ c ∈ s, isPathChar c = true) (l : Level) :
    Reads d l s (s.foldl Level.push l) := by
  simpa using Reads.text_append hs (.done : Reads d (s.foldl Level.push l) [] _)

theorem isPathChar_of_padding {pad : Text} (hpad : Padding pad) :
    ∀ c ∈ pad, isPathChar c = true :=
  fun c hc => isPathChar_of_isPad (hpad c hc)

/-- `ReadsAlike d t p`: at depth `d`, the text is read as a path in its braces, and the path
resolves as `p` does. -/
def ReadsAlike (d : Nat) (t : Text) (p : Path) : Prop :=
  ∃ u i q, t = '\x7b' :: '\x7b' :: (u ++ ['\x7d', '\x7d']) ∧ Reads d .empty u i ∧
    i.path? = some q ∧ ∀ frames : Context, frames.resolve q = frames.resolve p

/-- **Parts are read as what they spell**, if their nested paths are. -/
theorem exists_reads_parts {d : Nat} {l : Level} {before parts : List Part} {s : Text}
    (hl : l.Spells before) (hs : Part.Padded parts s)
    (htexts : ∀ s, .text s ∈ parts → ∀ c ∈ s, isPathChar c = true)
    (hrefs : ∀ p, .ref p ∈ parts → ∀ t, p.Padded t →
      d + 1 < maxNesting ∧ ReadsAlike (d + 1) t p) :
    ∃ r, Reads d l s r ∧ r.Spells (before ++ parts) := by
  induction parts generalizing l before s with
  | nil =>
    cases hs
    exact ⟨l, .done, by rwa [List.append_nil]⟩
  | cons part parts ih =>
    have htexts' := fun s hs => htexts s (List.mem_cons_of_mem _ hs)
    have hrefs' := fun p hp => hrefs p (List.mem_cons_of_mem _ hp)
    cases hs with
    | @text s t _ ht =>
      obtain ⟨r, hr, hspells⟩ := ih (hl.text s) ht htexts' hrefs'
      refine ⟨r, (reads_text (htexts s List.mem_cons_self) l).append hr, ?_⟩
      rwa [List.append_assoc] at hspells
    | @ref p s t _ hp ht =>
      obtain ⟨hd, u, i, q, rfl, hi, hpath, hq⟩ := hrefs p List.mem_cons_self s hp
      have hne : i.text ≠ [] := by simp [Level.text]
      obtain ⟨r, hr, hspells⟩ := ih (hl.pushRef hne hq) ht htexts' hrefs'
      refine ⟨r, by simpa using Reads.ref hd hi hpath hr, ?_⟩
      rwa [List.append_assoc] at hspells

end Placeholder

theorem Path.depth_lt_of_ref {p : Path} {parts : List Part} (h : .ref p ∈ parts) :
    p.depth < depthParts parts := by
  induction parts with
  | nil => cases h
  | cons part parts ih =>
    cases part with
    | text s =>
      rcases List.mem_cons.mp h with h | h
      · cases h
      · exact ih h
    | ref q =>
      rw [depthParts]
      rcases List.mem_cons.mp h with h | h
      · cases h
        omega
      · have hlt := ih h
        omega

theorem Context.resolve_congr_path {frames : Context} {p q : Path}
    (h : frames.resolvePath p = frames.resolvePath q) : frames.resolve p = frames.resolve q := by
  rw [resolve, resolve, h]

/-- **A path is read as what it spells**, whatever blanks stand inside its braces. -/
theorem Path.Writable.exists_reads_padded {p : Path} (h : p.Writable) {d : Nat}
    (hd : d + p.depth < maxNesting) {pad s pad' : Text} (hpad : Padding pad)
    (hpad' : Padding pad') (hs : Part.Padded p.parts s) :
    ∃ r, Reads d .empty (pad ++ s ++ pad') r ∧
      r.Spells (.text pad :: p.parts ++ [.text pad']) := by
  induction p generalizing d pad s pad' with
  | mk raw parts ih =>
    have hrefs : ∀ q, .ref q ∈ parts → ∀ t, q.Padded t →
        d + 1 < maxNesting ∧ ReadsAlike (d + 1) t q := by
      intro q hq t ht
      have hlt : q.depth < depthParts parts := depth_lt_of_ref hq
      have hd' : d + depthParts parts < maxNesting := hd
      obtain ⟨pad, s, pad', rfl, hpad, hpad', hs⟩ := ht.exists_inside
      obtain ⟨i, hi, hspells⟩ := ih q hq (h.of_ref hq) (d := d + 1) (by omega) hpad hpad' hs
      have hsolid : ¬ Padding (pad ++ s ++ pad') := fun hp =>
        hs.not_padding (h.of_ref hq).solid fun c hc => hp c (by simp [hc])
      obtain ⟨_, hitems⟩ := hi.exists_items
      have hpath := (hi.path?_iff hitems).mpr ⟨hsolid, rfl⟩
      refine ⟨by omega, _, i, _, rfl, hi, hpath, fun frames => ?_⟩
      exact Context.resolve_congr_path (hspells.resolvePath_eq hpad hpad' _ frames)
    have hfront := Level.spells_empty.text pad
    obtain ⟨m, hm, hmiddle⟩ := exists_reads_parts hfront hs h.texts hrefs
    refine ⟨_, ?_, hmiddle.text pad'⟩
    exact ((reads_text (isPathChar_of_padding hpad) _).append hm).append
      (reads_text (isPathChar_of_padding hpad') _)

namespace Placeholder

/-! ### The outermost braces -/

theorem foldl_push_padding {pad : Text} (hpad : Padding pad) {l : Level} (hl : l.path = []) :
    pad.foldl Level.push l = { l with pad := l.pad ++ pad } := by
  induction pad generalizing l with
  | nil => simp
  | cons c pad ih =>
    obtain ⟨hc, hpad⟩ := List.forall_mem_cons.mp hpad
    have hpush : l.push c = { l with pad := l.pad ++ [c] } := by simp [Level.push, hl, hc]
    rw [List.foldl_cons, hpush, @ih hpad { l with pad := l.pad ++ [c] } hl]
    simp

/-- A level reads on in the same way whatever blanks were in front of its path. -/
theorem Reads.pad_append {d : Nat} {l r : Level} {s : Text} (h : Reads d l s r) (pad : Text) :
    Reads d { l with pad := pad ++ l.pad } s { r with pad := pad ++ r.pad } := by
  induction h with
  | done => exact .done
  | @char d l l' c s hc _ ih =>
    have hpush : ({ l with pad := pad ++ l.pad } : Level).push c =
        { l.push c with pad := pad ++ (l.push c).pad } := by
      unfold Level.push
      split
      · simp [*]
      · simp [*]
    exact .char hc (hpush ▸ ih)
  | ref hd hi hp _ _ ih => exact .ref hd hi hp ih

theorem Reads.unique {l r r' : Level} {s : Text} (h : Reads 0 l s r) (h' : Reads 0 l s r') :
    r = r' := by
  have hr : interior [] l (s ++ ['\x7d', '\x7d']) = some r := interior_nil_iff.mpr ⟨s, [], rfl, h⟩
  have hr' := interior_nil_iff.mpr ⟨s, [], rfl, h'⟩
  exact Option.some.inj (hr.symm.trans hr')

/-- What is read behind blanks is read without them as well. -/
theorem Reads.of_padding_append {pad s : Text} {c : Char} {r : Level} (hpad : Padding pad)
    (hc : isPad c = false) (h : Reads 0 .empty (pad ++ c :: s) r) :
    ∃ r', Reads 0 .empty (c :: s) r' ∧ r'.allParts = r.allParts := by
  obtain ⟨nested, hitems⟩ := h.exists_items
  have hdrop : (pad ++ c :: s).dropWhile isPad = c :: s := by
    rw [List.dropWhile_append_of_pos hpad, List.dropWhile_cons_of_neg (by simp [hc])]
  obtain ⟨r', hr'⟩ := (hdrop ▸ hitems.dropWhile : Items 0 nested (c :: s)).exists_reads .empty
  -- With the blanks in front again, nothing but the pad is another one.
  have hfront := reads_text (d := 0) (isPathChar_of_padding hpad) .empty
  rw [foldl_push_padding hpad rfl] at hfront
  have hbehind := hr'.pad_append pad
  rw [show pad ++ Level.empty.pad = Level.empty.pad ++ pad by simp [Level.empty]] at hbehind
  obtain rfl := h.unique (hfront.append hbehind)
  exact ⟨r', hr', rfl⟩

end Placeholder

/-- `q.Alike p`: a path that was read cannot be told from `p` by resolving it. -/
structure Path.Alike (q p : Path) : Prop where
  nested : q.isNested = p.isNested
  resolvePath (frames : Context) : frames.resolvePath q = frames.resolvePath p
  raw : p.isNested = false → q.raw = (printParts p.parts).trim

/-- What stands between the outermost braces is a path, which resolves as the one that was
written. -/
theorem Path.Writable.exists_alike {p : Path} (h : p.Writable) (hd : p.depth < maxNesting)
    {pad s pad' : Text} (hpad : Padding pad) (hpad' : Padding pad')
    (hs : Part.Padded p.parts s) :
    ¬ Padding (pad ++ s ++ pad') ∧ ∃ r, Reads 0 .empty (pad ++ s ++ pad') r ∧
      Path.Alike ⟨Text.trim (pad ++ s ++ pad'), r.allParts⟩ p := by
  obtain ⟨r, hr, hspells⟩ := h.exists_reads_padded (d := 0) (by omega) hpad hpad' hs
  have hsolid : ¬ Padding (pad ++ s ++ pad') := fun hp =>
    hs.not_padding h.solid fun c hc => hp c (by simp [hc])
  have htrim : Text.trim (pad ++ s ++ pad') = s.trim := by
    rw [Text.trim_append_blanks fun c hc => isBlank_of_isPad (hpad' c hc),
      trim_padding_append hpad]
  refine ⟨hsolid, r, hr, ?_, hspells.resolvePath_eq hpad hpad' _, fun hplain => ?_⟩
  · rw [Level.isNested_allParts, hspells.nested, Part.any_isRef_append_text]
    rfl
  · rw [htrim, hs.eq_printParts hplain]

/-- **A path that is written with blanks is one placeholder**, which resolves as the path
does. -/
theorem placeholder?_padded {p : Path} (h : p.Writable) (hd : p.depth < maxNesting)
    {sigil : Option Char} (hsigil : p.isNested = true → sigil = none ∨ sigil = some '&')
    {t : Text} (ht : p.PaddedTag sigil t) :
    ∃ x, placeholder? t = some x ∧ x.text = t ∧ x.kind = kindOf sigil p.isNested ∧
      x.path.Alike p := by
  cases ht with
  | plain ht =>
    obtain ⟨pad, s, pad', rfl, hpad, hpad', hs⟩ := ht.exists_inside
    obtain ⟨hsolid, r, hr, halike⟩ := h.exists_alike hd hpad hpad' hs
    -- The reader takes all blanks in front off first, also those that are in the path.
    obtain ⟨front, c, u, hinside, hfront, hc⟩ := exists_padding_append hsolid
    rw [hinside] at hr halike ⊢
    obtain ⟨r', hr', hparts⟩ := hr.of_padding_append hfront hc
    rw [← hparts, trim_padding_append hfront] at halike
    obtain ⟨nested, hitems⟩ := hr'.exists_items
    have hpath := (hr'.path?_iff hitems).mpr
      ⟨fun hp => by simpa [hc] using hp c List.mem_cons_self, rfl⟩
    have hfound := placeholder?_append (.plain hfront) hr' (fun _ => ⟨c, u, rfl, hc⟩) hpath
      (fun hn => by simp [plainKind, hn, mayNest]) []
    refine ⟨_, by simpa using hfound, by simp, ?_, halike⟩
    simp [plainKind, halike.nested, kindOf]
  | @sigil _ c pad pad' pad'' s hc hpad hpad' hpad'' hs =>
    obtain ⟨hsolid, r, hr, halike⟩ := h.exists_alike hd hpad' hpad'' hs
    obtain ⟨nested, hitems⟩ := hr.exists_items
    have hkind : sigil? c = some (kindOf (some c) p.isNested) :=
      sigil?_eq_some_iff.mpr ⟨hc, fun _ => kindOf_eq hc _ _⟩
    have hnest : p.isNested = true → mayNest (kindOf (some c) p.isNested) = true := fun hn =>
      (mayNest_kindOf hc _).mpr (by simpa using hsigil hn)
    have hfound := placeholder?_append (.sigil hpad hkind) hr (by simp)
      ((hr.path?_iff hitems).mpr ⟨hsolid, rfl⟩) (fun hn => hnest (halike.nested ▸ hn)) []
    exact ⟨_, by simpa using hfound, by simp, rfl, by simpa using halike⟩

/-- **Blanks just inside the braces never matter.**  However a path is written with blanks, and
perhaps with a sigil, its text is one placeholder from end to end, of the same kind; the paths
of any two such texts resolve alike in every context, to the same dotted path or value or to the
same fault; and without nested paths they are written alike. -/
theorem padding_irrelevant {p : Path} (h : p.Writable) (hd : p.depth ≤ maxNesting - 1)
    {sigil : Option Char} (hsigil : p.isNested = true → sigil = none ∨ sigil = some '&')
    {s t : Text} (hs : p.PaddedTag sigil s) (ht : p.PaddedTag sigil t) :
    ∃ u v, (placeholders s).tokens = [u] ∧ (placeholders t).tokens = [v] ∧
      u.text = s ∧ v.text = t ∧ u.kind = kindOf sigil p.isNested ∧ v.kind = u.kind ∧
      (∀ frames : Context, frames.resolvePath u.path = frames.resolvePath v.path ∧
        frames.resolve u.path = frames.resolve v.path) ∧
      (p.isNested = false → u.path.raw = v.path.raw) := by
  have hd' : p.depth < maxNesting := Nat.lt_of_le_pred (by decide) hd
  obtain ⟨x, hx, hxtext, hxkind, hxalike⟩ := placeholder?_padded h hd' hsigil hs
  obtain ⟨y, hy, hytext, hykind, hyalike⟩ := placeholder?_padded h hd' hsigil ht
  have htokens : ∀ {z : Lexeme} {w : Text}, placeholder? w = some z → z.text = w →
      (placeholders w).tokens = [z.token .start] := by
    rintro z _ hz rfl
    rw [placeholders, scan_whole (placeholder?_sound _ _ hz).1 hz]
    rfl
  refine ⟨x.token .start, y.token .start, htokens hx hxtext, htokens hy hytext, hxtext, hytext,
    hxkind, hykind.trans hxkind.symm, fun frames => ?_, fun hplain => ?_⟩
  · have hresolve : frames.resolvePath x.path = frames.resolvePath y.path :=
      (hxalike.resolvePath frames).trans (hyalike.resolvePath frames).symm
    exact ⟨hresolve, Context.resolve_congr_path hresolve⟩
  · exact (hxalike.raw hplain).trans (hyalike.raw hplain).symm

/-- A path with another one behind a text. -/
def Path.loose : Path :=
  ⟨[], [.text "a.".toList, .ref (.literal "b".toList)]⟩

theorem Path.writable_literal {s : Text} (hs : ∀ c ∈ s, isPathChar c = true) (hne : ¬ Padding s) :
    (literal s).Writable := by
  refine .intro (fun t ht => ?_) ⟨_, List.mem_cons_self, fun t ht => ?_⟩ (by simp)
  · simp only [List.mem_singleton, Part.text.injEq] at ht
    exact ht ▸ hs
  · rw [Part.text.injEq] at ht
    exact ht ▸ hne

/-- With an ampersand, it may be written without blanks or with blanks at each of the places. -/
theorem padding_irrelevant_loose :
    Path.loose.Writable ∧ Path.loose.depth ≤ maxNesting - 1 ∧ ∃ u v,
      (placeholders "\x7b\x7b&a.\x7b\x7bb\x7d\x7d\x7d\x7d".toList).tokens = [u] ∧
      (placeholders "\x7b\x7b \t& a.\x7b\x7b\tb \x7d\x7d \x7d\x7d".toList).tokens = [v] ∧
      u.kind = .ampersand ∧ v.kind = .ampersand ∧
      ∀ frames : Context, frames.resolve u.path = frames.resolve v.path := by
  have hpad : ∀ {pad : Text}, (pad.all isPad) = true → Padding pad := fun h =>
    List.all_eq_true.mp h
  have hplain : (Path.literal "b".toList).Writable :=
    Path.writable_literal (List.all_eq_true.mp (by decide)) (by simp [Padding, isPad])
  have hloose : Path.loose.Writable := by
    refine .intro ?_ ⟨_, List.mem_cons_self, by simp [Padding, isPad]⟩ ?_
    · simp [isPathChar]
    · simpa using hplain
  have hparts : ∀ {pad pad' : Text}, Padding pad → Padding pad' →
      Part.Padded Path.loose.parts ("a.".toList ++ ('\x7b' :: '\x7b' ::
        (pad ++ "b".toList ++ pad' ++ ['\x7d', '\x7d']) ++ [])) := fun h h' =>
    .text (.ref (.intro h h' (.text .nil)) .nil)
  have hs : Path.loose.PaddedTag (some '&')
      "\x7b\x7b&a.\x7b\x7bb\x7d\x7d\x7d\x7d".toList :=
    .sigil (by decide) padding_nil padding_nil padding_nil (hparts padding_nil padding_nil)
  have ht : Path.loose.PaddedTag (some '&')
      "\x7b\x7b \t& a.\x7b\x7b\tb \x7d\x7d \x7d\x7d".toList :=
    @Path.PaddedTag.sigil _ _ " \t".toList " ".toList " ".toList _ (by decide) (hpad (by decide))
      (hpad (by decide)) (hpad (by decide))
      (@hparts "\t".toList " ".toList (hpad (by decide)) (hpad (by decide)))
  have hdepth : Path.loose.depth ≤ maxNesting - 1 := by decide
  obtain ⟨u, v, hu, hv, -, -, hukind, hvkind, hresolve, -⟩ :=
    padding_irrelevant hloose hdepth (fun _ => .inr rfl) hs ht
  exact ⟨hloose, hdepth, u, v, hu, hv, hukind, hvkind.trans hukind,
    fun frames => (hresolve frames).2⟩

end ConfigTemplate
