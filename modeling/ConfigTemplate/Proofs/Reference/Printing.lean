/-
Paths as they are written.

`Path.print` writes a path between its braces, from its parts alone.

* `exists_reads_printParts`: parts in a row are read as the parts that were written;
* `Path.WellFormed.exists_reads`: so is a path, as long as its braces do not nest too deep;
* `placeholder?_print`: and it is one placeholder, whatever stands behind it.

Design notes: some parts cannot be told apart once they are written, such as two texts in a
row or blanks beside the opening braces.  `Path.WellFormed` leaves these out at every level.
What is read knows at every level how it is written; `Path.canonical` is the path with that.
-/
import ConfigTemplate.Proofs.Reference.Grammar

namespace ConfigTemplate

/-- Whether a part is a nested reference. -/
def Part.isRef : Part → Bool
  | .text _ => false
  | .ref _ => true

namespace Path

mutual

/-- A path as it is written, with its braces. -/
def print : Path → Text
  | ⟨_, parts⟩ => '\x7b' :: '\x7b' :: (printParts parts ++ ['\x7d', '\x7d'])

/-- The parts of a path as they are written, one behind the other. -/
def printParts : List Part → Text
  | [] => []
  | .text s :: ps => s ++ printParts ps
  | .ref p :: ps => p.print ++ printParts ps

end

mutual

/-- The path with the same texts and the same nested paths, each of which knows how it is
written. -/
def canonical : Path → Path
  | ⟨_, parts⟩ => ⟨(printParts parts).trim, canonicalParts parts⟩

/-- The parts with every path in them canonical. -/
def canonicalParts : List Part → List Part
  | [] => []
  | .text s :: ps => .text s :: canonicalParts ps
  | .ref p :: ps => .ref p.canonical :: canonicalParts ps

end

theorem print_eq (p : Path) :
    p.print = '\x7b' :: '\x7b' :: (printParts p.parts ++ ['\x7d', '\x7d']) := by
  cases p
  rw [print]

theorem canonical_eq (p : Path) :
    p.canonical = ⟨(printParts p.parts).trim, canonicalParts p.parts⟩ := by
  cases p
  rw [canonical]

theorem depthParts_canonicalParts_of {parts : List Part}
    (hrefs : ∀ p, .ref p ∈ parts → p.canonical.depth = p.depth) :
    depthParts (canonicalParts parts) = depthParts parts := by
  induction parts with
  | nil => rfl
  | cons part parts ih =>
    have hrest := ih fun p hp => hrefs p (List.mem_cons_of_mem _ hp)
    cases part with
    | text s => exact hrest
    | ref p => rw [canonicalParts, depthParts, depthParts, hrest, hrefs p List.mem_cons_self]

@[simp] theorem depth_canonical (p : Path) : p.canonical.depth = p.depth := by
  induction p with
  | mk raw parts ih => exact depthParts_canonicalParts_of ih

theorem isNested_eq (p : Path) : p.isNested = p.parts.any Part.isRef := rfl

@[simp] theorem isNested_canonical (p : Path) : p.canonical.isNested = p.isNested := by
  rw [isNested_eq, isNested_eq, canonical_eq]
  generalize p.parts = parts
  induction parts with
  | nil => rfl
  | cons part parts ih =>
    cases part with
    | text s => exact ih
    | ref p => rfl

end Path

open Placeholder

/-- Parts in a row that can be told apart when they are written. -/
structure Part.Legible (parts : List Part) : Prop where
  /-- The texts are characters of paths, and none of them is empty. -/
  texts : ∀ s, .text s ∈ parts → s ≠ [] ∧ ∀ c ∈ s, isPathChar c = true
  /-- There are no two texts in a row. -/
  apart : parts.IsChain fun a b => a.isRef = true ∨ b.isRef = true

theorem Part.Legible.of_cons {part : Part} {parts : List Part} (h : Legible (part :: parts)) :
    Legible parts :=
  ⟨fun s hs => h.texts s (List.mem_cons_of_mem _ hs), h.apart.of_cons⟩

/-- Parts that can stand between braces. -/
structure Part.Interior (parts : List Part) : Prop extends Part.Legible parts where
  /-- The first part is no text that begins with a blank. -/
  first : ∀ c s, parts.head? = some (.text (c :: s)) → isPad c = false
  /-- The parts are not all blank texts. -/
  solid : ∃ part ∈ parts, ∀ s, part = .text s → ¬ Padding s

/-- Whether the parts can stand between braces at every level of a path. -/
inductive Path.WellFormed : Path → Prop
  | intro {raw : Text} {parts : List Part} (hparts : Part.Interior parts)
      (hrefs : ∀ p, .ref p ∈ parts → WellFormed p) : WellFormed ⟨raw, parts⟩

theorem Path.WellFormed.interior {p : Path} (h : p.WellFormed) : Part.Interior p.parts := by
  obtain ⟨hparts, -⟩ := h
  exact hparts

theorem Path.WellFormed.of_ref {p q : Path} (h : p.WellFormed) (hq : .ref q ∈ p.parts) :
    q.WellFormed := by
  obtain ⟨-, hrefs⟩ := h
  exact hrefs q hq

/-- Induction over the parts of a path that is well-formed. -/
theorem Path.WellFormed.induct_parts {p : Path} (h : p.WellFormed) {motive : List Part → Prop}
    (nil : motive [])
    (text : ∀ s parts, (∀ c ∈ s, isPathChar c = true) → motive parts → motive (.text s :: parts))
    (ref : ∀ q parts, .ref q ∈ p.parts → q.WellFormed → motive parts → motive (.ref q :: parts)) :
    motive p.parts := by
  suffices key : ∀ parts, (∀ part ∈ parts, part ∈ p.parts) → motive parts from
    key p.parts fun _ hpart => hpart
  intro parts hparts
  induction parts with
  | nil => exact nil
  | cons part parts ih =>
    obtain ⟨hpart, hrest⟩ := List.forall_mem_cons.mp hparts
    cases part with
    | text s => exact text s parts (h.interior.texts s hpart).2 (ih hrest)
    | ref q => exact ref q parts hpart (h.of_ref hpart) (ih hrest)

namespace Placeholder

/-! ### Reading a text -/

/-- A text that begins with no blank, or stands behind something, is taken as it is. -/
theorem foldl_push {l : Level} {s : Text}
    (hfirst : l.path = [] → ∀ c t, s = c :: t → isPad c = false) :
    s.foldl Level.push l = { l with path := l.path ++ s, pending := l.pending ++ s } := by
  induction s generalizing l with
  | nil => simp
  | cons c s ih =>
    have hpush : l.push c = { l with path := l.path ++ [c], pending := l.pending ++ [c] } := by
      unfold Level.push
      split
      · next h =>
        rw [Bool.and_eq_true, List.isEmpty_iff] at h
        rw [hfirst h.1 c s rfl] at h
        exact absurd h.2 (by decide)
      · rfl
    rw [List.foldl_cons, hpush, ih (by simp)]
    simp

theorem Reads.text_append {d : Nat} {l r : Level} {s rest : Text}
    (hs : ∀ c ∈ s, isPathChar c = true) (h : Reads d (s.foldl Level.push l) rest r) :
    Reads d l (s ++ rest) r := by
  induction s generalizing l with
  | nil => exact h
  | cons c s ih =>
    obtain ⟨hc, hs⟩ := List.forall_mem_cons.mp hs
    exact .char hc (ih hs h)

/-! ### Reading parts -/

/-- Whether parts can be read as they are, in a level that has read something. -/
structure Level.Accepts (l : Level) (parts : List Part) : Prop extends Part.Legible parts where
  /-- A text in front does not go on from another one, or from no more than blanks. -/
  first : ∀ c s, parts.head? = some (.text (c :: s)) →
    l.pending = [] ∧ (l.path = [] → isPad c = false)

theorem accepts_empty {parts : List Part} (h : Part.Interior parts) :
    Level.empty.Accepts parts :=
  ⟨h.toLegible, fun c s hs => ⟨rfl, fun _ => h.first c s hs⟩⟩

theorem Level.Accepts.of_text {l r : Level} {s : Text} {parts : List Part}
    (h : l.Accepts (.text s :: parts)) : r.Accepts parts := by
  refine ⟨h.of_cons, fun c u hu => ?_⟩
  -- No other text stands behind a text.
  obtain ⟨_, parts, rfl⟩ := List.head?_eq_some_iff.mp hu
  exact absurd (List.isChain_cons_cons.mp h.apart).1 (by simp [Part.isRef])

theorem Level.Accepts.of_ref {l : Level} {p q : Path} {s : Text} {parts : List Part}
    (h : l.Accepts (.ref p :: parts)) (hs : s ≠ []) : (l.pushRef q s).Accepts parts :=
  ⟨h.of_cons, fun _ _ _ => ⟨rfl, fun hpath => absurd (List.append_eq_nil_iff.mp hpath).2 hs⟩⟩

/-- `Gains l parts r`: the level `r` has what `l` has, and the parts behind that. -/
structure Level.Gains (l : Level) (parts : List Part) (r : Level) : Prop where
  pad : r.pad = l.pad
  path : r.path = l.path ++ Path.printParts parts
  parts : r.allParts = l.allParts ++ Path.canonicalParts parts

theorem Level.gains_nil (l : Level) : l.Gains [] l :=
  ⟨rfl, (List.append_nil _).symm, (List.append_nil _).symm⟩

theorem Level.Gains.text {l r : Level} {s : Text} {parts : List Part} (hpending : l.pending = [])
    (hne : s ≠ [])
    (h : Gains { l with path := l.path ++ s, pending := l.pending ++ s } parts r) :
    l.Gains (.text s :: parts) r where
  pad := h.pad
  path := h.path.trans (List.append_assoc _ _ _)
  parts := by
    rw [h.parts, Path.canonicalParts]
    simp [Level.allParts, hpending, hne]

theorem Level.Gains.ref {l r : Level} {p : Path} {parts : List Part}
    (h : (l.pushRef p.canonical p.print).Gains parts r) : l.Gains (.ref p :: parts) r where
  pad := h.pad
  path := h.path.trans (List.append_assoc _ _ _)
  parts := by
    rw [h.parts, Path.canonicalParts]
    simp [Level.allParts, Level.pushRef]

/-- **Parts are read as they are written**, if their nested paths are. -/
theorem exists_reads_printParts {d : Nat} {l : Level} {parts : List Part} (hl : l.Accepts parts)
    (hdepth : d + Path.depthParts parts < maxNesting)
    (hrefs : ∀ p, .ref p ∈ parts → d + 1 + p.depth < maxNesting →
      ∃ i, Reads (d + 1) .empty (Path.printParts p.parts) i ∧ i.path? = some p.canonical ∧
        i.text = p.print) :
    ∃ r, Reads d l (Path.printParts parts) r ∧ l.Gains parts r := by
  induction parts generalizing l with
  | nil => exact ⟨l, .done, l.gains_nil⟩
  | cons part parts ih =>
    have hrest := fun p hp => hrefs p (List.mem_cons_of_mem _ hp)
    cases part with
    | text s =>
      obtain ⟨hne, hs⟩ := hl.texts s List.mem_cons_self
      obtain ⟨c, u, rfl⟩ := List.exists_cons_of_ne_nil hne
      obtain ⟨hpending, hpad⟩ := hl.first c u rfl
      have hpush := @foldl_push l (c :: u) fun hpath d t ht => by
        rw [← (List.cons.inj ht).1]
        exact hpad hpath
      obtain ⟨r, hr, hgains⟩ := @ih ((c :: u).foldl Level.push l) hl.of_text hdepth hrest
      rw [hpush] at hgains
      exact ⟨r, hr.text_append hs, .text hpending hne hgains⟩
    | ref p =>
      rw [Path.depthParts] at hdepth
      obtain ⟨i, hi, hpath, htext⟩ := hrefs p List.mem_cons_self (by omega)
      have hne : i.text ≠ [] := by simp [Level.text]
      obtain ⟨r, hr, hgains⟩ :=
        @ih (l.pushRef p.canonical i.text) (hl.of_ref hne) (by omega) hrest
      have hread := Reads.ref (by omega) hi hpath hr
      rw [htext] at hgains
      refine ⟨r, ?_, .ref hgains⟩
      simpa [Path.printParts, Path.print_eq] using hread

theorem not_padding_printParts {parts : List Part}
    (h : ∃ part ∈ parts, ∀ s, part = .text s → ¬ Padding s) :
    ¬ Padding (Path.printParts parts) := by
  intro hpad
  obtain ⟨part, hpart, hsolid⟩ := h
  induction parts with
  | nil => cases hpart
  | cons head parts ih =>
    have hparts : ∀ front, Path.printParts (head :: parts) = front ++ Path.printParts parts →
        Padding (Path.printParts parts) := fun front hfront c hc =>
      hpad c (by rw [hfront]; exact List.mem_append_right _ hc)
    cases head with
    | ref p => exact absurd (hpad '\x7b' (by simp [Path.printParts, Path.print_eq])) (by decide)
    | text s =>
      rcases List.mem_cons.mp hpart with rfl | hpart
      · exact hsolid s rfl fun c hc => hpad c (List.mem_append_left _ hc)
      · exact ih (hparts s rfl) hpart

end Placeholder

namespace Path

/-- **A path that is written is read as it is**, where its braces may nest as deep. -/
theorem WellFormed.exists_reads {p : Path} (h : p.WellFormed) {d : Nat}
    (hd : d + p.depth < maxNesting) :
    ∃ r, Reads d .empty (printParts p.parts) r ∧ r.path? = some p.canonical ∧
      r.text = p.print := by
  induction p generalizing d with
  | mk raw parts ih =>
    obtain ⟨r, hr, hpad, hpath, hparts⟩ := exists_reads_printParts
      (accepts_empty h.interior) hd fun p hp hlt => ih p hp (h.of_ref hp) hlt
    obtain ⟨_, hitems⟩ := hr.exists_items
    rw [Level.empty, List.nil_append] at hpath
    refine ⟨r, hr, ?_, ?_⟩
    · refine Level.path?_eq_some_iff.mpr ⟨?_, ?_⟩
      · rw [hpath]
        exact fun he => not_padding_printParts h.interior.solid (hitems.trim_eq_nil_iff.mp he)
      · rw [canonical_eq, hpath, hparts]
        rfl
    · rw [Level.text, hpad, hpath, print_eq]
      rfl

/-- Inside its braces, a path begins with a character of a path or with a nested path. -/
theorem WellFormed.begins {p : Path} (h : p.WellFormed) :
    (∃ c s, printParts p.parts = c :: s ∧ isPathChar c = true ∧ isPad c = false) ∨
      ∃ q s, .ref q ∈ p.parts ∧
        printParts p.parts = '\x7b' :: '\x7b' :: (printParts q.parts ++ s) := by
  obtain ⟨part, parts, hparts⟩ := List.exists_cons_of_ne_nil fun hnil : p.parts = [] => by
    obtain ⟨part, hpart, -⟩ := h.interior.solid
    rw [hnil] at hpart
    cases hpart
  cases part with
  | ref q =>
    refine .inr ⟨q, '\x7d' :: '\x7d' :: printParts parts, by simp [hparts], ?_⟩
    rw [hparts, printParts, print_eq]
    simp
  | text s =>
    obtain ⟨hne, hs⟩ := h.interior.texts s (by simp [hparts])
    obtain ⟨c, u, rfl⟩ := List.exists_cons_of_ne_nil hne
    refine .inl ⟨c, u ++ printParts parts, ?_, hs c List.mem_cons_self,
      h.interior.first c u (by simp [hparts])⟩
    rw [hparts, printParts, List.cons_append]

/-- Inside its braces, a path begins with neither a blank nor a sigil. -/
theorem WellFormed.exists_cons {p : Path} (h : p.WellFormed) :
    ∃ c s, printParts p.parts = c :: s ∧ isPad c = false ∧ sigil? c = none := by
  rcases h.begins with ⟨c, s, hs, hc, hpad⟩ | ⟨q, s, -, hs⟩
  · exact ⟨c, s, hs, hpad, sigil?_of_isPathChar hc⟩
  · exact ⟨'\x7b', _, hs, by decide, by decide⟩

end Path

/-- The placeholder that a path is when it is written. -/
def Path.lexeme (p : Path) : Lexeme :=
  ⟨plainKind p.canonical, p.canonical, p.print⟩

/-- **A path that is written is one placeholder**, whatever stands behind it, if its braces do
not nest too deep. -/
theorem placeholder?_print {p : Path} (h : p.WellFormed) (hd : p.depth < maxNesting)
    (rest : Text) :
    placeholder? (p.print ++ rest) = some p.lexeme := by
  obtain ⟨r, hr, hpath, -⟩ := h.exists_reads (d := 0) (by omega)
  obtain ⟨c, s, hs, hc, -⟩ := h.exists_cons
  have hnest : mayNest (plainKind p.canonical) = true := by
    unfold plainKind
    split <;> rfl
  have hfound := placeholder?_append (.plain padding_nil) hr (fun _ => ⟨c, s, hs, hc⟩) hpath
    (fun _ => hnest) rest
  rw [Path.lexeme, Path.print_eq]
  exact hfound

end ConfigTemplate
