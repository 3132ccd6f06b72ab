/-
Interiors of placeholders, one pair of braces at a time.

`interior` reads nested braces with a stack of levels.  `Reads` says what it
does without the stack: a derivation follows one level from its opening braces
to its closing ones, and a nested placeholder is one step of it.

* `Reads.interior_append`: the stack machine takes every text that can be read;
* `exists_reads_of_interior`: whatever it accepts can be read, level by level;
* `interior_nil_iff`: so the outermost level accepts exactly what can be read up
  to its closing braces;
* `Reads.written_eq`: and nothing that was read is lost;
* `interior_append_unread`: reading does not depend on what stands behind a place that it
  never passes, such as the end of a line.

Design notes: a derivation carries its depth and not the levels around it, so an
induction on it needs no statement about the stack.  What a level remembers of
its text is `Level.written`; what it makes of the text is said by
`Level.WellFormed`, which every step keeps.
-/
import Mathlib.Data.List.TakeWhile
import ConfigTemplate.Reference.Placeholder

namespace ConfigTemplate

namespace Placeholder

/-- Whether a text is nothing but blanks of the kind that stand beside braces. -/
def Padding (s : Text) : Prop :=
  ∀ c ∈ s, isPad c = true

/-! ### Blanks beside braces -/

theorem isBlank_of_isPad {c : Char} (h : isPad c = true) : Text.isBlank c = true := by
  simp only [isPad, Bool.or_eq_true, decide_eq_true_eq] at h
  rcases h with rfl | rfl <;> decide

theorem padding_nil : Padding [] := by simp [Padding]

theorem trim_padding_append {pad : Text} (hpad : Padding pad) (s : Text) :
    Text.trim (pad ++ s) = s.trim := by
  have hblank : ∀ c ∈ pad, Text.isBlank c = true := fun c hc => isBlank_of_isPad (hpad c hc)
  rw [Text.trim, Text.trim, Text.trimStart, Text.trimStart, List.dropWhile_append_of_pos hblank]

theorem exists_padding_append {s : Text} (h : ¬ Padding s) :
    ∃ pad c u, s = pad ++ c :: u ∧ Padding pad ∧ isPad c = false := by
  rcases hd : s.dropWhile isPad with _ | ⟨c, u⟩
  · exact absurd (List.dropWhile_eq_nil_iff.mp hd) h
  · refine ⟨s.takeWhile isPad, c, u, ?_, List.all_eq_true.mp List.all_takeWhile, ?_⟩
    · rw [← hd, List.takeWhile_append_dropWhile]
    · simpa [hd] using List.head?_dropWhile_not isPad s

/-! ### One step of the machine -/

theorem ne_of_isPathChar {c d : Char} (hc : isPathChar c = true) (hd : isPathChar d = false) :
    c ≠ d := by
  rintro rfl
  exact absurd hc (by simp [hd])

theorem interior_char {c : Char} (outer : List Level) (l : Level) (s : Text)
    (hc : isPathChar c = true) : interior outer l (c :: s) = interior outer (l.push c) s := by
  have ho : c ≠ '\x7b' := ne_of_isPathChar hc rfl
  have hcl : c ≠ '\x7d' := ne_of_isPathChar hc rfl
  rw [interior, if_pos hc]
  · exact fun _ h => absurd h ho
  · exact fun _ h => absurd h hcl

theorem interior_opening (outer : List Level) (l : Level) (s : Text)
    (hd : outer.length + 1 < maxNesting) :
    interior outer l ('\x7b' :: '\x7b' :: s) = interior (l :: outer) .empty s := by
  rw [interior, if_neg (by decide), if_pos hd]

theorem interior_closing_outermost (l : Level) (s : Text) :
    interior [] l ('\x7d' :: '\x7d' :: s) = some l := by
  rw [interior, if_neg (by decide)]

theorem interior_closing (o : Level) (outer : List Level) {l : Level} {p : Path} (s : Text)
    (hp : l.path? = some p) :
    interior (o :: outer) l ('\x7d' :: '\x7d' :: s) = interior outer (o.pushRef p l.text) s := by
  rw [interior, if_neg (by decide)]
  simp only [hp]

theorem interior_closing_of_none (o : Level) (outer : List Level) {l : Level} (s : Text)
    (hp : l.path? = none) : interior (o :: outer) l ('\x7d' :: '\x7d' :: s) = none := by
  have hc : isPathChar '\x7d' = false := rfl
  simp [interior, hc, hp]

/-! ### Reading one level -/

/-- `Reads d l s l'`: in a level at depth `d`, reading all of the text `s` leads
from `l` to `l'`. -/
inductive Reads : (depth : Nat) → Level → Text → Level → Prop
  | done {d : Nat} {l : Level} : Reads d l [] l
  | char {d : Nat} {l l' : Level} {c : Char} {s : Text} (hc : isPathChar c = true)
      (h : Reads d (l.push c) s l') : Reads d l (c :: s) l'
  | ref {d : Nat} {l l' i : Level} {p : Path} {t s : Text} (hd : d + 1 < maxNesting)
      (hi : Reads (d + 1) .empty t i) (hp : i.path? = some p)
      (h : Reads d (l.pushRef p i.text) s l') :
      Reads d l ('\x7b' :: '\x7b' :: (t ++ '\x7d' :: '\x7d' :: s)) l'

/-- The machine takes every text that can be read, in whatever levels it stands. -/
theorem Reads.interior_append {d : Nat} {l l' : Level} {s : Text} (h : Reads d l s l')
    (outer : List Level) (hd : outer.length = d) (rest : Text) :
    interior outer l (s ++ rest) = interior outer l' rest := by
  induction h generalizing outer rest with
  | done => rfl
  | char hc _ ih =>
    rw [List.cons_append, interior_char _ _ _ hc]
    exact ih outer hd rest
  | @ref d l l' i p t s hlt _ hp _ ihi ih =>
    -- The braces open one more level, which is closed again before the rest.
    have hlen : (l :: outer).length = d + 1 := by simp [hd]
    rw [List.cons_append, List.cons_append, List.append_assoc, List.cons_append,
      List.cons_append, interior_opening _ _ _ (by omega), ihi (l :: outer) hlen,
      interior_closing _ _ _ hp]
    exact ih outer hd rest

/-- What closes a level: the machine accepts at the outermost one, and goes on in
the level around any other. -/
def Closes : (outer : List Level) → (l : Level) → (rest : Text) → (r : Level) → Prop
  | [], l, _, r => r = l
  | o :: outer, l, rest, r =>
    ∃ p, l.path? = some p ∧ interior outer (o.pushRef p l.text) rest = some r

/-- All that the machine can do with a text that it accepts: take a character of
the path, open a level or close one. -/
theorem interior_cases {outer : List Level} {l r : Level} {s : Text}
    (h : interior outer l s = some r) :
    (∃ c s', s = c :: s' ∧ isPathChar c = true ∧ interior outer (l.push c) s' = some r) ∨
    (∃ s', s = '\x7b' :: '\x7b' :: s' ∧ outer.length + 1 < maxNesting ∧
      interior (l :: outer) .empty s' = some r) ∨
    (∃ s', s = '\x7d' :: '\x7d' :: s' ∧ Closes outer l s' r) := by
  fun_cases interior outer l s with
  | case1 => simp [interior] at h
  | case2 outer l c s hc =>
    rw [interior_char _ _ _ hc] at h
    exact .inl ⟨c, s, rfl, hc, h⟩
  | case3 outer l s hd =>
    rw [interior_opening _ _ _ hd] at h
    exact .inr (.inl ⟨s, rfl, hd, h⟩)
  | case4 outer l s hd => simp_all [interior]
  | case5 l s =>
    rw [interior_closing_outermost] at h
    exact .inr (.inr ⟨s, rfl, (Option.some.inj h).symm⟩)
  | case6 l s o outer p hp =>
    rw [interior_closing _ _ _ hp] at h
    exact .inr (.inr ⟨s, rfl, p, hp, h⟩)
  | case7 => simp_all [interior]
  | case8 => simp_all [interior]

/-- Whatever the machine accepts begins with a text that the innermost level can
read, and closing braces after it. -/
theorem exists_reads_of_interior {outer : List Level} {l r : Level} {s : Text}
    (h : interior outer l s = some r) :
    ∃ t rest l', s = t ++ '\x7d' :: '\x7d' :: rest ∧ Reads outer.length l t l' ∧
      Closes outer l' rest r := by
  -- The rest behind nested braces is shorter by more than a character, so the
  -- induction is on the length.
  generalize hn : s.length = n
  induction n using Nat.strongRecOn generalizing s outer l with
  | ind n ih =>
    subst hn
    rcases interior_cases h with ⟨c, s', rfl, hc, h⟩ | ⟨s', rfl, hd, h⟩ | ⟨s', rfl, hr⟩
    · obtain ⟨t, rest, l', rfl, ht, hr⟩ := ih _ (by simp) h rfl
      exact ⟨c :: t, rest, l', rfl, .char hc ht, hr⟩
    · have hlen : s'.length < ('\x7b' :: '\x7b' :: s').length := by
        simp only [List.length_cons]
        omega
      obtain ⟨t, rest, i, rfl, ht, p, hp, hi⟩ := ih _ hlen h rfl
      have hlen' : rest.length < ('\x7b' :: '\x7b' :: (t ++ '\x7d' :: '\x7d' :: rest)).length := by
        simp only [List.length_cons, List.length_append]
        omega
      obtain ⟨t', rest', l', rfl, ht', hr⟩ := ih _ hlen' hi rfl
      exact ⟨'\x7b' :: '\x7b' :: (t ++ '\x7d' :: '\x7d' :: t'), rest', l', by simp,
        .ref hd ht hp ht', hr⟩
    · exact ⟨[], s', l, rfl, .done, hr⟩

/-- The outermost level accepts exactly what can be read up to its closing
braces. -/
theorem interior_nil_iff {l r : Level} {s : Text} :
    interior [] l s = some r ↔ ∃ t rest, s = t ++ '\x7d' :: '\x7d' :: rest ∧ Reads 0 l t r := by
  constructor
  · intro h
    obtain ⟨t, rest, l', hs, ht, rfl⟩ := exists_reads_of_interior h
    exact ⟨t, rest, hs, ht⟩
  · rintro ⟨t, rest, rfl, ht⟩
    rw [ht.interior_append [] rfl, interior_closing_outermost]

/-! ### What a level remembers -/

namespace Level

/-- The interior as written so far. -/
def written (l : Level) : Text :=
  l.pad ++ l.path

/-- Whether a reference has been read. -/
def hasRef (l : Level) : Bool :=
  Path.isNested ⟨[], l.parts⟩

@[simp] theorem written_empty : written empty = [] := rfl

@[simp] theorem hasRef_empty : hasRef empty = false := rfl

theorem text_eq (l : Level) : l.text = '\x7b' :: '\x7b' :: (l.written ++ ['\x7d', '\x7d']) := rfl

@[simp] theorem written_push (l : Level) (c : Char) : (l.push c).written = l.written ++ [c] := by
  unfold push
  split
  · next h =>
    have hl : l.path = [] := by simp_all
    simp [written, hl]
  · simp [written]

@[simp] theorem written_pushRef (l : Level) (p : Path) (t : Text) :
    (l.pushRef p t).written = l.written ++ t := by
  simp [written, pushRef]

@[simp] theorem hasRef_push (l : Level) (c : Char) : (l.push c).hasRef = l.hasRef := by
  unfold push
  split <;> rfl

@[simp] theorem hasRef_pushRef (l : Level) (p : Path) (t : Text) :
    (l.pushRef p t).hasRef = true := by
  simp [hasRef, Path.isNested, pushRef]

theorem path?_eq_some_iff {l : Level} {p : Path} :
    l.path? = some p ↔ l.path.trim ≠ [] ∧ p = ⟨l.path.trim, l.allParts⟩ := by
  unfold path?
  rcases ht : l.path.trim with _ | ⟨c, s⟩
  · simp
  · simp [eq_comm]

theorem isNested_allParts (l : Level) (raw : Text) :
    Path.isNested ⟨raw, l.allParts⟩ = l.hasRef := by
  unfold allParts
  split <;> simp [hasRef, Path.isNested]

/-- What a level makes of its text.  The blanks before the path are set apart,
and as long as there is no reference the path is one plain text. -/
structure WellFormed (l : Level) : Prop where
  pad : Padding l.pad
  plain : l.hasRef = false → l.parts = [] ∧ l.pending = l.path

theorem WellFormed.trim_path {l : Level} (h : l.WellFormed) : l.path.trim = l.written.trim :=
  (trim_padding_append h.pad l.path).symm

theorem wellFormed_empty : WellFormed empty :=
  ⟨padding_nil, fun _ => ⟨rfl, rfl⟩⟩

theorem WellFormed.push {l : Level} (h : l.WellFormed) (c : Char) : (l.push c).WellFormed := by
  refine ⟨?_, fun hr => ?_⟩
  · unfold Level.push
    split
    · next hc =>
      rw [Bool.and_eq_true] at hc
      intro d hd
      rcases List.mem_append.mp hd with hd | hd
      · exact h.pad d hd
      · rw [List.mem_singleton.mp hd]
        exact hc.2
    · exact h.pad
  · rw [hasRef_push] at hr
    obtain ⟨hparts, hpending⟩ := h.plain hr
    unfold Level.push
    split
    · exact ⟨hparts, hpending⟩
    · exact ⟨hparts, by simp only [hpending]⟩

theorem WellFormed.pushRef {l : Level} (h : l.WellFormed) (p : Path) (t : Text) :
    (l.pushRef p t).WellFormed :=
  ⟨h.pad, fun hr => absurd hr (by simp)⟩

end Level

theorem Reads.wellFormed {d : Nat} {l l' : Level} {s : Text} (h : Reads d l s l')
    (hl : l.WellFormed) : l'.WellFormed := by
  induction h with
  | done => exact hl
  | char _ _ ih => exact ih (hl.push _)
  | ref _ _ _ _ _ ih => exact ih (hl.pushRef _ _)

/-- Nothing that was read is lost. -/
theorem Reads.written_eq {d : Nat} {l l' : Level} {s : Text} (h : Reads d l s l') :
    l'.written = l.written ++ s := by
  induction h with
  | done => simp
  | char _ _ ih => simp [ih]
  | ref _ _ _ _ ihi ih => simp [ih, Level.text_eq, ihi]

theorem Reads.hasRef_iff {d : Nat} {l l' : Level} {s : Text} (h : Reads d l s l') :
    l'.hasRef = true ↔ l.hasRef = true ∨ '\x7b' ∈ s := by
  induction h with
  | done => simp
  | @char _ _ _ c _ hc _ ih =>
    have ho : '\x7b' ≠ c := (ne_of_isPathChar hc rfl).symm
    simp [ih, ho]
  | ref _ _ _ _ _ ih => simp [ih]

/-! ### Where reading ends -/

/-- Whether a text is never read on into, not even behind a brace that may form a pair with
its first character. -/
def Unread (t : Text) : Prop :=
  ∀ outer l, interior outer l t = none ∧
    ∀ c, isPathChar c = false → interior outer l (c :: t) = none

theorem interior_append_unread {t : Text} (h : Unread t) (outer : List Level) (l : Level)
    (s : Text) : interior outer l (s ++ t) = interior outer l s := by
  fun_induction interior outer l s with
  -- The machine fails there as it does at the end of the text.
  | case1 outer l => exact (h outer l).1
  | case2 outer l c s hc ih => rw [List.cons_append, interior_char _ _ _ hc, ih]
  | case3 outer l s hd _ ih =>
    rw [List.cons_append, List.cons_append, interior_opening _ _ _ hd, ih]
  | case4 outer l s hd hc => simp [interior, hc, hd]
  | case5 l s hc => simp [interior_closing_outermost]
  | case6 l s o outer p hp _ ih =>
    rw [List.cons_append, List.cons_append, interior_closing _ _ _ hp, ih]
  | case7 l s o outer hp hc => simp [interior, hc, hp]
  | case8 outer l c s hc hopen hclose =>
    rcases s with _ | ⟨d, s⟩
    · exact (h outer l).2 c (by simpa using hc)
    · -- A single brace in the text is no pair of braces.
      rw [List.cons_append, interior, if_neg hc]
      · exact fun u hb hu => hopen s hb (by simp_all)
      · exact fun u hb hu => hclose s hb (by simp_all)

/-- Reading never passes a character that stands in no path and is no brace. -/
theorem unread_cons {c : Char} (hpath : isPathChar c = false) (hopen : c ≠ '\x7b')
    (hclose : c ≠ '\x7d') (t : Text) : Unread (c :: t) := by
  intro outer l
  refine ⟨by simp [interior, hpath, hopen, hclose], fun d hd => ?_⟩
  rw [interior, if_neg (by simp [hd])]
  · exact fun u _ hu => hopen (List.cons.inj hu).1
  · exact fun u _ hu => hclose (List.cons.inj hu).1

end Placeholder

end ConfigTemplate
