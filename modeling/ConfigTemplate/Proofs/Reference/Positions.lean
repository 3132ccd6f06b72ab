/-
Reading placeholders by byte positions.

A program that works on the bytes of a text tests single bytes, moves positions and takes
slices between them.  `ByPosition` is such a program, with every step checked that could go
wrong: a slice that is out of bounds or inside a character, a loop that does not move on, a
call that nests too deep.

* `Follows`: what the loop over an interior knows of the text before it, which is what a level
  of the machine holds;
* `Follows.reaches`: so the loop does what the machine does there, a nested placeholder being
  one turn of it, if the calls for nested placeholders do.

Design notes: a position is met as the end of the text `u` before it, so a slice is taken
where the texts around it are known, and no arithmetic on positions is left.  The checks are
part of the definitions, so an equation with `.ok` says that none of them fails.
-/
import ConfigTemplate.Proofs.Reference.NestingLimit
import ConfigTemplate.Proofs.Reference.Occurrences
import ConfigTemplate.Proofs.Text.Slices

namespace ConfigTemplate

namespace Placeholder

theorem isAscii_of_isPathChar {c : Char} (h : isPathChar c = true) : c.toNat < 0x80 := by
  simp only [isPathChar, Bool.or_eq_true, decide_eq_true_eq] at h
  have hname : EnvVar.isNameChar c = true ∨ c = ' ' ∨ c = '\t' := by
    simp only [EnvVar.isNameChar, Bool.or_eq_true, decide_eq_true_eq]
    tauto
  rcases hname with hname | rfl | rfl
  · exact EnvVar.isNameChar_ascii hname
  · decide
  · decide

/-- A level as written is its braces around what was read in it. -/
theorem Reads.text_eq {d : Nat} {i : Level} {t : Text} (h : Reads d .empty t i) :
    i.text = '\x7b' :: '\x7b' :: (t ++ ['\x7d', '\x7d']) := by
  rw [Level.text_eq, h.written_eq, Level.written_empty, List.nil_append]

end Placeholder

open Placeholder

namespace ByPosition

/-- What stops a program that reads by positions. -/
inductive Trap where
  /-- A slice that cannot be taken. -/
  | slice (start stop : Nat)
  /-- A loop that does not move on. -/
  | stalled (pos : Nat)
  /-- A call below the last level. -/
  | exhausted
  deriving DecidableEq, Repr

/-- The text from one position to another. -/
def slice (source : Text) (start stop : Nat) : Except Trap Text :=
  match source.slice? start stop with
  | some s => .ok s
  | none => .error (.slice start stop)

/-- Whether the byte at a position and the one behind it are both `c`. -/
def pairAt (c : Char) (source : Text) (pos : Nat) : Bool :=
  source.asciiAt pos = some c && source.asciiAt (pos + 1) = some c

/-- The position behind the blanks at `pos`. -/
def skipPads (source : Text) (pos : Nat) : Nat :=
  match _h : source.asciiAt pos with
  | some c => if isPad c then skipPads source (pos + 1) else pos
  | none => pos
termination_by source.byteLength - pos
decreasing_by
  have := Text.lt_of_asciiAt _h
  omega

/-- A placeholder that was found, and the position behind it. -/
structure Found where
  kind : Kind
  path : Path
  stop : Nat

/-- One more item, made of the text from one position to another, if there is any. -/
def pushSlice {α : Type} (item : Text → α) (source : Text) (start stop : Nat) (items : List α) :
    Except Trap (List α) := do
  if start < stop then
    return items ++ [item (← slice source start stop)]
  else
    return items

/-- Read a path on from `pos` up to its closing braces: their position and its parts.  The text
from `textStart` on is not among `parts` yet. -/
def pathFrom (source : Text) (nested : Nat → Except Trap (Option Found))
    (pos textStart : Nat) (parts : List Part) : Except Trap (Option (Nat × List Part)) := do
  if pairAt '\x7b' source pos then
    match ← nested pos with
    | none => return none
    | some inner =>
      let parts ← pushSlice .text source textStart pos parts
      if _h : pos < inner.stop ∧ inner.stop ≤ source.byteLength then
        pathFrom source nested inner.stop inner.stop (parts ++ [.ref inner.path])
      else
        throw (.stalled pos)
  else if pairAt '\x7d' source pos then
    return some (pos, ← pushSlice .text source textStart pos parts)
  else
    match _h : source.asciiAt pos with
    | some c =>
      if isPathChar c then pathFrom source nested (pos + 1) textStart parts else return none
    | none => return none
termination_by source.byteLength - pos
decreasing_by
  · omega
  · have := Text.lt_of_asciiAt _h
    omega

/-! ### Single steps -/

theorem slice_append (u t v : Text) :
    slice (u ++ t ++ v) u.byteLength (u ++ t).byteLength = .ok t := by
  rw [slice, Text.slice?_eq_some_iff.mpr ⟨u, v, rfl, rfl, rfl⟩]

theorem pushSlice_append {α : Type} (item : Text → α) (u t v : Text) (items : List α) :
    pushSlice item (u ++ t ++ v) u.byteLength (u ++ t).byteLength items =
      .ok (if t.isEmpty then items else items ++ [item t]) := by
  rw [pushSlice, Text.byteLength_append]
  by_cases ht : t = []
  · simp [ht]
    rfl
  · have hpos : 0 < t.byteLength :=
      Nat.pos_of_ne_zero fun hz => ht (Text.byteLength_eq_zero_iff.mp hz)
    rw [if_pos (by omega), if_neg (by simpa using ht), ← Text.byteLength_append, slice_append]
    rfl

theorem byteLength_snoc {c : Char} (hc : c.toNat < 0x80) (u : Text) :
    (u ++ [c]).byteLength = u.byteLength + 1 := by
  have hsize : c.utf8Size = 1 := Char.utf8Size_eq_one_iff.mpr (Nat.le_of_lt_succ hc)
  rw [Text.byteLength_append, Text.byteLength_cons, hsize, Text.byteLength_nil]

theorem pairAt_iff {c : Char} (hc : c.toNat < 0x80) {u v : Text} :
    pairAt c (u ++ v) u.byteLength = true ↔ ∃ w, v = c :: c :: w := by
  have hsecond : ∀ w, (u ++ c :: w).asciiAt (u.byteLength + 1) = some c ↔ ∃ x, w = c :: x := by
    intro w
    rw [← byteLength_snoc hc, List.append_cons, Text.asciiAt_append_iff, and_iff_right hc]
  rw [pairAt, Bool.and_eq_true, decide_eq_true_eq, decide_eq_true_eq, Text.asciiAt_append_iff]
  constructor
  · rintro ⟨⟨-, w, rfl⟩, h⟩
    obtain ⟨x, rfl⟩ := (hsecond w).mp h
    exact ⟨x, rfl⟩
  · rintro ⟨w, rfl⟩
    exact ⟨⟨hc, _, rfl⟩, (hsecond _).mpr ⟨w, rfl⟩⟩

theorem skipPads_append {pad v : Text} (hpad : Padding pad)
    (hv : ∀ c ∈ v.head?, isPad c = false) (u : Text) :
    skipPads (u ++ (pad ++ v)) u.byteLength = (u ++ pad).byteLength := by
  induction pad generalizing u with
  | nil =>
    rw [skipPads, List.nil_append, List.append_nil]
    split
    · next c h =>
      obtain ⟨-, w, rfl⟩ := Text.asciiAt_append_iff.mp h
      rw [if_neg (by simp [hv c rfl])]
    · rfl
  | cons c pad ih =>
    obtain ⟨hc, hrest⟩ := List.forall_mem_cons.mp hpad
    have hascii := isAscii_of_isPathChar (isPathChar_of_isPad hc)
    have hat : (u ++ (c :: (pad ++ v))).asciiAt u.byteLength = some c :=
      Text.asciiAt_append_iff.mpr ⟨hascii, _, rfl⟩
    have hnext := ih hrest (u ++ [c])
    rw [byteLength_snoc hascii, ← List.append_cons, ← List.append_cons] at hnext
    rw [skipPads, List.cons_append]
    split
    · next d h =>
      obtain rfl : c = d := Option.some.inj (hat.symm.trans h)
      rw [if_pos hc, hnext]
    · next h => simp [hat] at h

/-! ### One interior -/

/-- What comes of the text `v` in the level `l` at depth `d`: with `some (t, l')` the level reads
`t` up to its closing braces and is `l'` there, and with `none` no machine in it accepts. -/
inductive Ended (d : Nat) (l : Level) (v : Text) : Option (Text × Level) → Prop
  | closed {t w : Text} {l' : Level} (hv : v = t ++ '\x7d' :: '\x7d' :: w) (h : Reads d l t l') :
      Ended d l v (some (t, l'))
  | failed (h : ∀ outer, outer.length = d → interior outer l v = none) : Ended d l v none

/-- What comes of a call at braces behind `start` bytes that open in a level at depth `d`, with
the text `v` behind them. -/
inductive Opened (d : Nat) (v : Text) (start : Nat) : Option Found → Prop
  | closed {t w : Text} {i : Level} {p : Path} {kind : Kind} (hd : d + 1 < maxNesting)
      (hv : v = t ++ '\x7d' :: '\x7d' :: w) (hi : Reads (d + 1) .empty t i)
      (hp : i.path? = some p) : Opened d v start (some ⟨kind, p, start + i.text.byteLength⟩)
  | failed (h : ∀ outer l, outer.length = d → interior outer l ('\x7b' :: '\x7b' :: v) = none) :
      Opened d v start none

/-- Whether a call at any opening braces of the text returns what comes of it in a level at depth
`d`. -/
def Nests (source : Text) (d : Nat) (nested : Nat → Except Trap (Option Found)) : Prop :=
  ∀ u v, source = u ++ '\x7b' :: '\x7b' :: v →
    ∃ found, nested u.byteLength = .ok found ∧ Opened d v u.byteLength found

/-- More text in front of what was read. -/
def prepend (s : Text) (x : Text × Level) : Text × Level :=
  (s ++ x.1, x.2)

theorem Ended.char {d : Nat} {l : Level} {c : Char} {v : Text} {o : Option (Text × Level)}
    (hc : isPathChar c = true) (h : Ended d (l.push c) v o) :
    Ended d l (c :: v) (o.map (prepend [c])) := by
  cases h with
  | closed hv h => exact .closed (by rw [hv]; rfl) (.char hc h)
  | failed h => exact .failed fun outer hd => (interior_char outer l v hc).trans (h outer hd)

theorem prepend_append (s t : Text) :
    prepend (s ++ t) = prepend s ∘ prepend t := by
  funext x
  simp [prepend]

/-- The blanks in front of a path are read before it. -/
theorem Ended.of_pad {d : Nat} {pad v : Text} {o : Option (Text × Level)} (before : Text)
    (hpad : Padding pad) (h : Ended d ⟨before ++ pad, [], [], []⟩ v o) :
    Ended d ⟨before, [], [], []⟩ (pad ++ v) (o.map (prepend pad)) := by
  induction pad generalizing before with
  | nil =>
    rw [List.append_nil] at h
    cases o <;> exact h
  | cons c pad ih =>
    obtain ⟨hc, hrest⟩ := List.forall_mem_cons.mp hpad
    have hpush : Level.push ⟨before, [], [], []⟩ c = ⟨before ++ [c], [], [], []⟩ := by
      simp [Level.push, hc]
    have hread := ih (before ++ [c]) hrest (by rwa [List.append_assoc])
    rw [← hpush] at hread
    rw [← List.singleton_append, prepend_append, ← Option.map_map]
    exact .char (isPathChar_of_isPad hc) hread

theorem Ended.ref {d : Nat} {l i : Level} {p : Path} {t v : Text} {o : Option (Text × Level)}
    (hd : d + 1 < maxNesting) (hi : Reads (d + 1) .empty t i) (hp : i.path? = some p)
    (h : Ended d (l.pushRef p i.text) v o) :
    Ended d l ('\x7b' :: '\x7b' :: (t ++ '\x7d' :: '\x7d' :: v)) (o.map (prepend i.text)) := by
  cases h with
  | @closed t' w l' hv h =>
    refine .closed (w := w) ?_ ?_
    · simp [hv, hi.text_eq]
    · have hread : Reads d l _ l' := .ref hd hi hp h
      simpa [prepend, hi.text_eq] using hread
  | failed h =>
    refine .failed fun outer houter => ?_
    have hread : Reads d l _ (l.pushRef p i.text) := .ref hd hi hp .done
    have happ := hread.interior_append outer houter v
    rw [h outer houter] at happ
    simpa using happ

/-- Where no path goes on and no braces open or close, reading ends. -/
theorem Ended.of_other {d : Nat} {l : Level} {v : Text} (hopen : ∀ w, v ≠ '\x7b' :: '\x7b' :: w)
    (hclose : ∀ w, v ≠ '\x7d' :: '\x7d' :: w)
    (hchar : ∀ c w, v = c :: w → isPathChar c = false) : Ended d l v none := by
  refine .failed fun outer _ => ?_
  rcases hr : interior outer l v with _ | r
  · rfl
  · rcases interior_cases hr with ⟨c, w, hv, hc, -⟩ | ⟨w, hv, -⟩ | ⟨w, hv, -⟩
    · exact absurd hc (by simp [hchar c w hv])
    · exact absurd hv (hopen w)
    · exact absurd hv (hclose w)

/-- Where the loop over a path is: at the end of `u`, with `v` left to read.  The path begins
behind `a` and the plain text at its end behind `b`. -/
structure Follows (source a b u v : Text) (l : Level) : Prop where
  source_eq : source = u ++ v
  path_eq : u = a ++ l.path
  pending_eq : u = b ++ l.pending
  /-- The blanks before the path were passed over. -/
  head : l.path = [] → ∀ c ∈ v.head?, isPad c = false

namespace Follows

variable {source a b u v : Text} {l : Level}

theorem start (u pad : Text) (hv : ∀ c ∈ v.head?, isPad c = false) :
    Follows (u ++ v) u u u v ⟨pad, [], [], []⟩ :=
  ⟨rfl, (List.append_nil u).symm, (List.append_nil u).symm, fun _ => hv⟩

theorem pairAt_iff (h : Follows source a b u v l) {c : Char} (hc : c.toNat < 0x80) :
    pairAt c source u.byteLength = true ↔ ∃ w, v = c :: c :: w := by
  rw [h.source_eq]
  exact ByPosition.pairAt_iff hc

/-- Nothing is pushed on the blanks before the path. -/
theorem push_eq {c : Char} (h : Follows source a b u (c :: v) l) :
    l.push c = { l with path := l.path ++ [c], pending := l.pending ++ [c] } := by
  rw [Level.push, if_neg]
  rw [Bool.and_eq_true, not_and, List.isEmpty_iff]
  intro hl
  simp [h.head hl c rfl]

theorem push {c : Char} (h : Follows source a b u (c :: v) l) :
    Follows source a b (u ++ [c]) v (l.push c) := by
  rw [h.push_eq]
  refine ⟨?_, ?_, ?_, fun hl => by simp at hl⟩
  · rw [h.source_eq, List.append_assoc, List.singleton_append]
  · rw [h.path_eq, List.append_assoc]
  · rw [h.pending_eq, List.append_assoc]

theorem pushRef {s : Text} (h : Follows source a b u (s ++ v) l) (hs : s ≠ []) (p : Path) :
    Follows source a (u ++ s) (u ++ s) v (l.pushRef p s) := by
  refine ⟨?_, ?_, ?_, fun hl => absurd hl (by simp [Level.pushRef, hs])⟩
  · rw [h.source_eq, List.append_assoc]
  · rw [h.path_eq, List.append_assoc]
    rfl
  · simp [Level.pushRef]

/-- The plain text at the end of the path becomes its last part. -/
theorem pushSlice_eq (h : Follows source a b u v l) :
    pushSlice .text source b.byteLength u.byteLength l.parts = .ok l.allParts := by
  rw [h.source_eq, h.pending_eq, pushSlice_append]
  rfl

end Follows

theorem length_lt_of_byteLength {u s v : Text} (hs : s ≠ []) :
    u.byteLength < (u ++ s).byteLength ∧ (u ++ s).byteLength ≤ (u ++ s ++ v).byteLength := by
  have hpos : 0 < s.byteLength :=
    Nat.pos_of_ne_zero fun hz => hs (Text.byteLength_eq_zero_iff.mp hz)
  simp only [Text.byteLength_append]
  omega

/-! ### Turns of the loop -/

section

variable {source a b u v : Text} {nested : Nat → Except Trap (Option Found)} {d : Nat} {l : Level}

/-- A turn at closing braces is the last one. -/
theorem pathFrom_closing (h : Follows source a b u ('\x7d' :: '\x7d' :: v) l) :
    pathFrom source nested u.byteLength b.byteLength l.parts =
      .ok (some (u.byteLength, l.allParts)) := by
  have hopen : ¬ pairAt '\x7b' source u.byteLength = true :=
    mt (h.pairAt_iff (by decide)).mp (by simp)
  have hclose : pairAt '\x7d' source u.byteLength = true :=
    (h.pairAt_iff (by decide)).mpr ⟨v, rfl⟩
  rw [pathFrom, if_neg hopen, if_pos hclose, h.pushSlice_eq]
  rfl

/-- A turn at a character of the path takes that character. -/
theorem pathFrom_char {c : Char} (h : Follows source a b u (c :: v) l)
    (hc : isPathChar c = true) :
    pathFrom source nested u.byteLength b.byteLength l.parts =
      pathFrom source nested (u ++ [c]).byteLength b.byteLength (l.push c).parts := by
  have hpair : ∀ d, d.toNat < 0x80 → isPathChar d = false →
      ¬ pairAt d source u.byteLength = true := by
    intro d hd hpath
    rw [h.pairAt_iff hd]
    rintro ⟨w, hw⟩
    exact ne_of_isPathChar hc hpath (List.cons.inj hw).1
  have hascii := isAscii_of_isPathChar hc
  have hat : source.asciiAt u.byteLength = some c := by
    rw [h.source_eq, Text.asciiAt_append_iff]
    exact ⟨hascii, v, rfl⟩
  rw [pathFrom, if_neg (hpair _ (by decide) rfl), if_neg (hpair _ (by decide) rfl),
    byteLength_snoc hascii, h.push_eq]
  split
  · next d hd =>
    obtain rfl : c = d := Option.some.inj (hat.symm.trans hd)
    rw [if_pos hc]
  · next hnone => simp [hat] at hnone

/-- A turn at a nested placeholder takes all of it. -/
theorem pathFrom_ref {s : Text} {found : Found} (h : Follows source a b u (s ++ v) l)
    (hs : s ≠ []) (hopen : pairAt '\x7b' source u.byteLength = true)
    (hnested : nested u.byteLength = .ok (some found))
    (hstop : found.stop = (u ++ s).byteLength) :
    pathFrom source nested u.byteLength b.byteLength l.parts =
      pathFrom source nested (u ++ s).byteLength (u ++ s).byteLength
        (l.pushRef found.path s).parts := by
  have hturn : u.byteLength < found.stop ∧ found.stop ≤ source.byteLength := by
    rw [hstop, h.source_eq, ← List.append_assoc]
    exact length_lt_of_byteLength hs
  rw [pathFrom, if_pos hopen, hnested]
  show (do
    let parts ← pushSlice Part.text source b.byteLength u.byteLength l.parts
    _) = _
  rw [h.pushSlice_eq]
  show dite _ _ _ = _
  rw [dif_pos hturn, hstop]
  rfl

/-- Where no path goes on and no braces open or close, the loop ends without a path. -/
theorem pathFrom_other (h : Follows source a b u v l)
    (hopen : ∀ w, v ≠ '\x7b' :: '\x7b' :: w) (hclose : ∀ w, v ≠ '\x7d' :: '\x7d' :: w)
    (hchar : ∀ c w, v = c :: w → isPathChar c = false) :
    pathFrom source nested u.byteLength b.byteLength l.parts = .ok none := by
  have hpair : ∀ d, d.toNat < 0x80 → (∀ w, v ≠ d :: d :: w) →
      ¬ pairAt d source u.byteLength = true := by
    intro d hd hv
    rw [h.pairAt_iff hd]
    rintro ⟨w, hw⟩
    exact hv w hw
  rw [pathFrom, if_neg (hpair _ (by decide) hopen), if_neg (hpair _ (by decide) hclose)]
  split
  · next c hc =>
    rw [h.source_eq] at hc
    obtain ⟨-, w, hw⟩ := Text.asciiAt_append_iff.mp hc
    rw [if_neg (by simp [hchar c w hw])]
    rfl
  · rfl

/-- Whether the loop at the end of `u` ends with what the level `l` comes to in `v`, in a path
that begins behind `a`. -/
def Reaches (source : Text) (nested : Nat → Except Trap (Option Found)) (d : Nat)
    (a b u v : Text) (l : Level) : Prop :=
  ∃ o, Ended d l v o ∧
    pathFrom source nested u.byteLength b.byteLength l.parts =
      .ok (o.map fun x => ((u ++ x.1).byteLength, x.2.allParts)) ∧
    ∀ x ∈ o, u ++ x.1 = a ++ x.2.path

theorem Reaches.char {c : Char} (h : Follows source a b u (c :: v) l) (hc : isPathChar c = true)
    (hnext : Reaches source nested d a b (u ++ [c]) v (l.push c)) :
    Reaches source nested d a b u (c :: v) l := by
  obtain ⟨o, hended, hloop, hpath⟩ := hnext
  refine ⟨o.map (prepend [c]), hended.char hc, ?_, ?_⟩
  · rw [pathFrom_char h hc, hloop]
    cases o <;> simp [prepend]
  · intro y hy
    obtain ⟨x, hx, rfl⟩ := Option.map_eq_some_iff.mp hy
    simpa [prepend] using hpath x hx

theorem Reaches.ref {t : Text} {i : Level} {p : Path} {kind : Kind}
    (h : Follows source a b u ('\x7b' :: '\x7b' :: (t ++ '\x7d' :: '\x7d' :: v)) l)
    (hd : d + 1 < maxNesting) (hi : Reads (d + 1) .empty t i) (hp : i.path? = some p)
    (hnested : nested u.byteLength = .ok (some ⟨kind, p, u.byteLength + i.text.byteLength⟩))
    (hnext : Reaches source nested d a (u ++ i.text) (u ++ i.text) v (l.pushRef p i.text)) :
    Reaches source nested d a b u ('\x7b' :: '\x7b' :: (t ++ '\x7d' :: '\x7d' :: v)) l := by
  obtain ⟨o, hended, hloop, hpath⟩ := hnext
  have hopen : pairAt '\x7b' source u.byteLength = true :=
    (h.pairAt_iff (by decide)).mpr ⟨_, rfl⟩
  have h' : Follows source a b u (i.text ++ v) l := by simpa [hi.text_eq] using h
  refine ⟨o.map (prepend i.text), hended.ref hd hi hp, ?_, ?_⟩
  · rw [pathFrom_ref h' (by simp [hi.text_eq]) hopen hnested (Text.byteLength_append u i.text).symm,
      hloop]
    cases o <;> simp [prepend]
  · intro y hy
    obtain ⟨x, hx, rfl⟩ := Option.map_eq_some_iff.mp hy
    simpa [prepend] using hpath x hx

/-- **The loop over a path does what the machine does there**, if the calls for nested
placeholders do. -/
theorem Follows.reaches (h : Follows source a b u v l) (hnested : Nests source d nested) :
    Reaches source nested d a b u v l := by
  -- The rest behind a nested placeholder is shorter by all of it.
  generalize hn : v.length = n
  induction n using Nat.strongRecOn generalizing u v b l with
  | ind n ih =>
    subst hn
    by_cases hopen : ∃ w, v = '\x7b' :: '\x7b' :: w
    · obtain ⟨w, rfl⟩ := hopen
      obtain ⟨found, hfound, hopened⟩ := hnested u w h.source_eq
      cases hopened with
      | failed hnone =>
        refine ⟨none, .failed (hnone · l), ?_, by simp⟩
        rw [pathFrom, if_pos ((h.pairAt_iff (by decide)).mpr ⟨w, rfl⟩), hfound]
        rfl
      | @closed t x i p kind hd hv hi hp =>
        subst hv
        have h' : Follows source a b u (i.text ++ x) l := by simpa [hi.text_eq] using h
        exact .ref h hd hi hp hfound
          (ih x.length (by simp; omega) (h'.pushRef (by simp [hi.text_eq]) p) rfl)
    by_cases hclose : ∃ w, v = '\x7d' :: '\x7d' :: w
    · obtain ⟨w, rfl⟩ := hclose
      refine ⟨some ([], l), .closed rfl .done, ?_, ?_⟩
      · rw [pathFrom_closing h, Option.map_some, List.append_nil]
      · simpa using h.path_eq
    by_cases hchar : ∃ c w, v = c :: w ∧ isPathChar c = true
    · obtain ⟨c, w, rfl, hc⟩ := hchar
      exact .char h hc (ih w.length (by simp) h.push rfl)
    · rw [not_exists] at hopen hclose
      have hother : ∀ c w, v = c :: w → isPathChar c = false := fun c w hv =>
        Bool.eq_false_iff.mpr fun hc => hchar ⟨c, w, hv, hc⟩
      exact ⟨none, .of_other hopen hclose hother, pathFrom_other h hopen hclose hother, by simp⟩

end

end ByPosition

end ConfigTemplate
