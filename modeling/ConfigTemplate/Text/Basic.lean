/-
Text as a list of characters.

Everything the library reads or writes is a `Text`, so scanning is recursion on
the list and splicing is `++`.  The list library lacks only these:

* `Text.pieces`: cut a text at every character of a class, as `Text.lines` does
  at the newline; `intercalate_lines` puts the lines together again;
* `Text.byteLength` and `Text.newlines`: what positions are made of, both
  additive over `++`;
* `Mark`: a place in a text, as a line and a byte offset.
-/
namespace ConfigTemplate

/-- A text, character by character. -/
abbrev Text := List Char

namespace Text

/-- The pieces of a text between the characters of class `cut`.  There is always
one more piece than there are such characters. -/
def pieces (cut : Char → Bool) : Text → List Text
  | [] => [[]]
  | c :: s =>
    if cut c then [] :: pieces cut s
    else match pieces cut s with
      | [] => [[c]]
      | p :: ps => (c :: p) :: ps

/-- The lines of a text.  A final newline opens a last, empty line. -/
def lines (s : Text) : List Text :=
  s.pieces (· == '\n')

/-- The order of code points, which is also the order of the bytes of UTF-8. -/
def le (s t : Text) : Bool :=
  !t.lex s fun c d => c.toNat < d.toNat

/-- The number of bytes of a text in UTF-8. -/
def byteLength (s : Text) : Nat :=
  s.foldr (fun c n => c.utf8Size + n) 0

/-- The number of newlines in a text, one less than it has lines. -/
def newlines (s : Text) : Nat :=
  s.count '\n'

theorem pieces_ne_nil (cut : Char → Bool) (s : Text) : s.pieces cut ≠ [] := by
  induction s with
  | nil => simp [pieces]
  | cons c s ih =>
    unfold pieces
    split
    · simp
    · split <;> simp

@[simp] theorem pieces_nil (cut : Char → Bool) : pieces cut [] = [[]] := rfl

theorem pieces_cons_cut {cut : Char → Bool} {c : Char} (s : Text) (h : cut c = true) :
    pieces cut (c :: s) = [] :: pieces cut s := by
  simp [pieces, h]

theorem pieces_cons_keep {cut : Char → Bool} {c : Char} {s p : Text} {ps : List Text}
    (h : cut c = false) (hs : pieces cut s = p :: ps) :
    pieces cut (c :: s) = (c :: p) :: ps := by
  simp [pieces, h, hs]

/-- No piece holds a character it was cut at. -/
theorem cut_eq_false_of_mem_pieces {cut : Char → Bool} {s p : Text} (hp : p ∈ s.pieces cut) :
    ∀ c ∈ p, cut c = false := by
  induction s generalizing p with
  | nil =>
    rw [pieces_nil, List.mem_singleton] at hp
    simp [hp]
  | cons d s ih =>
    by_cases hd : cut d = true
    · rw [pieces_cons_cut s hd, List.mem_cons] at hp
      rcases hp with rfl | hp
      · simp
      · exact ih hp
    · rw [Bool.not_eq_true] at hd
      obtain ⟨q, qs, hs⟩ := List.exists_cons_of_ne_nil (pieces_ne_nil cut s)
      rw [pieces_cons_keep hd hs, List.mem_cons] at hp
      rcases hp with rfl | hp
      · intro c hc
        rcases List.mem_cons.mp hc with rfl | hc
        · exact hd
        · exact ih (hs ▸ List.mem_cons_self) c hc
      · exact ih (hs ▸ List.mem_cons_of_mem _ hp)

/-- Cutting a text is what the list library calls splitting it. -/
theorem pieces_eq_splitOnP (cut : Char → Bool) (s : Text) : s.pieces cut = s.splitOnP cut := by
  induction s with
  | nil => rfl
  | cons c s ih =>
    rw [List.splitOnP_cons_eq_if_modifyHead, ← ih]
    by_cases hc : cut c = true
    · rw [pieces_cons_cut s hc, if_pos hc]
    · obtain ⟨p, ps, hs⟩ := List.exists_cons_of_ne_nil (pieces_ne_nil cut s)
      have hkeep : cut c = false := by simpa using hc
      rw [pieces_cons_keep hkeep hs, if_neg hc, hs, List.modifyHead_cons]

theorem pieces_eq_splitOn (c : Char) (s : Text) : s.pieces (· == c) = s.splitOn c := by
  rw [pieces_eq_splitOnP, List.splitOn_eq_splitOnP]

/-- The lines of a text, joined by newlines, are the text. -/
theorem intercalate_lines (s : Text) : List.intercalate ['\n'] s.lines = s := by
  rw [lines, pieces_eq_splitOn, List.intercalate_splitOn]

/-- One text comes strictly before another exactly if the other is not at or before it. -/
theorem le_eq_false_iff {s t : Text} : Text.le t s = false ↔ s < t := by
  rw [Text.le, Bool.not_eq_false']
  simp only [List.lex_eq_true_iff_lex, decide_eq_true_eq]
  rfl

theorem lt_of_le {s t : Text} (h : Text.le s t = true) (hne : s ≠ t) : s < t := by
  have hnot : ¬ t < s := fun hts => by simp [le_eq_false_iff.mpr hts] at h
  exact Decidable.byContradiction fun hst => hne (List.le_antisymm hnot hst)

@[simp] theorem byteLength_nil : byteLength [] = 0 := rfl

@[simp] theorem byteLength_cons (c : Char) (s : Text) :
    byteLength (c :: s) = c.utf8Size + byteLength s := rfl

@[simp] theorem byteLength_append (s t : Text) :
    byteLength (s ++ t) = byteLength s + byteLength t := by
  induction s with
  | nil => simp
  | cons c s ih => simp only [List.cons_append, byteLength_cons, ih, Nat.add_assoc]

@[simp] theorem newlines_append (s t : Text) : newlines (s ++ t) = newlines s + newlines t := by
  simp [newlines]

end Text

/-- A place in a text: the line it is on, counted from 1, and the number of bytes
before it. -/
structure Mark where
  line : Nat
  offset : Nat
  deriving DecidableEq, Repr

namespace Mark

/-- The place before a text: line 1, with no bytes before it. -/
def start : Mark := ⟨1, 0⟩

/-- The place after one more character. -/
def next (m : Mark) (c : Char) : Mark :=
  ⟨if c = '\n' then m.line + 1 else m.line, m.offset + c.utf8Size⟩

/-- The place after the text `s`. -/
def past (m : Mark) (s : Text) : Mark :=
  s.foldl next m

@[simp] theorem past_nil (m : Mark) : m.past [] = m := rfl

@[simp] theorem past_cons (m : Mark) (c : Char) (s : Text) : m.past (c :: s) = (m.next c).past s :=
  rfl

@[simp] theorem past_append (m : Mark) (s t : Text) : m.past (s ++ t) = (m.past s).past t := by
  simp [past]

/-- A mark counts the newlines and the bytes that it has passed. -/
theorem past_eq (m : Mark) (s : Text) :
    m.past s = ⟨m.line + s.newlines, m.offset + s.byteLength⟩ := by
  induction s generalizing m with
  | nil => rfl
  | cons c s ih =>
    rw [past_cons, ih]
    by_cases h : c = '\n'
    · simp only [next, h, if_true, Text.newlines, List.count_cons_self, Text.byteLength_cons]
      congr 1 <;> omega
    · simp only [next, h, if_false, Text.newlines, Text.byteLength_cons,
        List.count_cons_of_ne h]
      congr 1
      omega

end Mark

end ConfigTemplate
