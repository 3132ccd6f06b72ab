/-
White space.

`Text.isBlank` is the Unicode property `White_Space`, and `Text.trim` removes it
from both ends:

* `isBlank_of_isWhitespace`: the ASCII blanks of the core library are in it;
* `trim_eq_nil_iff`: exactly the texts of blanks trim to nothing;
* `mem_trim`: nothing else is lost;
* `infix_trim`: and a part of the text that has no blanks is kept in one piece;
* `trim_surrounded`: a text without blanks is what is left of it with blanks around.
-/
import ConfigTemplate.Text.Basic

namespace ConfigTemplate

namespace Text

/-- The characters with the Unicode property `White_Space`. -/
def isBlank (c : Char) : Bool :=
  let n := c.toNat
  (0x9 ≤ n && n ≤ 0xD) || n == 0x20 || n == 0x85 || n == 0xA0 || n == 0x1680 ||
    (0x2000 ≤ n && n ≤ 0x200A) || n == 0x2028 || n == 0x2029 || n == 0x202F || n == 0x205F ||
    n == 0x3000

theorem isBlank_of_isWhitespace {c : Char} (h : c.isWhitespace = true) : isBlank c = true := by
  simp only [Char.isWhitespace, Bool.or_eq_true, decide_eq_true_eq] at h
  rcases h with ((rfl | rfl) | rfl) | rfl <;> decide

/-- The text from its first character on that is not blank. -/
def trimStart (s : Text) : Text :=
  s.dropWhile isBlank

/-- The text up to its last character that is not blank. -/
def trimEnd : Text → Text
  | [] => []
  | c :: s => match trimEnd s with
    | [] => if isBlank c then [] else [c]
    | d :: t => c :: d :: t

/-- The text without the blanks around it. -/
def trim (s : Text) : Text :=
  trimEnd (trimStart s)

@[simp] theorem trimEnd_nil : trimEnd [] = [] := rfl

theorem trimEnd_eq_nil_iff {s : Text} : trimEnd s = [] ↔ ∀ c ∈ s, isBlank c = true := by
  induction s with
  | nil => simp
  | cons c s ih =>
    unfold trimEnd
    rcases h : trimEnd s with _ | ⟨d, t⟩
    · by_cases hc : isBlank c = true <;> simp_all
    · simp only [reduceCtorEq, false_iff]
      intro hall
      have := ih.mpr fun x hx => hall x (List.mem_cons_of_mem _ hx)
      simp [h] at this

theorem trimStart_eq_nil_iff {s : Text} : trimStart s = [] ↔ ∀ c ∈ s, isBlank c = true := by
  unfold trimStart
  induction s with
  | nil => simp
  | cons c s ih => by_cases h : isBlank c = true <;> simp [h, ih]

/-- Exactly the texts of blanks trim to nothing. -/
theorem trim_eq_nil_iff {s : Text} : trim s = [] ↔ ∀ c ∈ s, isBlank c = true := by
  constructor
  · intro h c hc
    rw [trim, trimEnd_eq_nil_iff] at h
    induction s with
    | nil => simp at hc
    | cons d s ih =>
      by_cases hd : isBlank d = true
      · rw [trimStart, List.dropWhile_cons_of_pos hd] at h
        rcases List.mem_cons.mp hc with rfl | hc
        · exact hd
        · exact ih h hc
      · rw [trimStart, List.dropWhile_cons_of_neg (by simpa using hd)] at h
        exact h c hc
  · intro h
    rw [trim, trimStart_eq_nil_iff.mpr h, trimEnd_nil]

theorem mem_trimStart {s : Text} {c : Char} (hc : isBlank c = false) (h : c ∈ s) :
    c ∈ trimStart s := by
  unfold trimStart
  induction s with
  | nil => exact h
  | cons d s ih =>
    by_cases hd : isBlank d = true
    · have hne : c ≠ d := by rintro rfl; simp [hc] at hd
      rw [List.dropWhile_cons_of_pos hd]
      exact ih ((List.mem_cons.mp h).resolve_left hne)
    · rwa [List.dropWhile_cons_of_neg (by simpa using hd)]

theorem mem_trimEnd {s : Text} {c : Char} (hc : isBlank c = false) (h : c ∈ s) :
    c ∈ trimEnd s := by
  induction s with
  | nil => exact h
  | cons d s ih =>
    unfold trimEnd
    rcases List.mem_cons.mp h with rfl | h
    · split
      · simp [hc]
      · exact List.mem_cons_self
    · split
      · next ht => simp [ht] at ih h; exact absurd h ih
      · next ht => exact List.mem_cons_of_mem _ (ht ▸ ih h)

/-- Trimming keeps every character that is not blank. -/
theorem mem_trim {s : Text} {c : Char} (hc : isBlank c = false) (h : c ∈ s) : c ∈ trim s :=
  mem_trimEnd hc (mem_trimStart hc h)

theorem trimEnd_eq_self {s : Text} (h : ∀ c ∈ s, isBlank c = false) : trimEnd s = s := by
  induction s with
  | nil => rfl
  | cons c s ih =>
    obtain ⟨hc, hs⟩ := List.forall_mem_cons.mp h
    rw [trimEnd, ih hs]
    rcases s with _ | ⟨d, t⟩
    · simp [hc]
    · rfl

/-- A text without blanks is trimmed already. -/
theorem trim_eq_self {s : Text} (h : ∀ c ∈ s, isBlank c = false) : trim s = s := by
  have hstart : trimStart s = s := by
    rcases s with _ | ⟨c, s⟩
    · rfl
    · have hc : isBlank c = false := h c List.mem_cons_self
      rw [trimStart, List.dropWhile_cons_of_neg (by simp [hc])]
  rw [trim, hstart, trimEnd_eq_self h]

theorem trimEnd_append_blanks {b : Text} (hb : ∀ c ∈ b, isBlank c = true) (s : Text) :
    trimEnd (s ++ b) = trimEnd s := by
  induction s with
  | nil => exact trimEnd_eq_nil_iff.mpr hb
  | cons c s ih => rw [List.cons_append, trimEnd, ih, trimEnd]

theorem prefix_trimEnd (s : Text) : trimEnd s <+: s := by
  induction s with
  | nil => exact List.prefix_rfl
  | cons c s ih =>
    rw [trimEnd]
    rcases ht : trimEnd s with _ | ⟨d, t⟩
    · by_cases hc : isBlank c = true <;> simp [hc]
    · rw [ht] at ih
      exact (List.prefix_cons_inj c).mpr ih

/-- A text that is trimmed already does not begin with blanks. -/
theorem trimStart_eq_self {s : Text} (h : trim s = s) : trimStart s = s := by
  have hsuffix : trimStart s <:+ s := List.dropWhile_suffix isBlank
  have hle : s.length ≤ (trimStart s).length := by
    conv => lhs; rw [← h]
    exact (prefix_trimEnd (trimStart s)).length_le
  exact hsuffix.eq_of_length_le hle

theorem trimEnd_append {t : Text} (ht : ∀ c ∈ t, isBlank c = false) (hne : t ≠ []) (s : Text) :
    trimEnd (s ++ t) = s ++ t := by
  induction s with
  | nil => exact trimEnd_eq_self ht
  | cons c s ih =>
    rw [List.cons_append, trimEnd, ih]
    rcases hst : s ++ t with _ | ⟨d, u⟩
    · exact absurd (List.append_eq_nil_iff.mp hst).2 hne
    · rfl

/-- A trimmed text with a text without blanks behind it is trimmed. -/
theorem trim_append {s t : Text} (hs : trim s = s) (hsne : s ≠ [])
    (ht : ∀ c ∈ t, isBlank c = false) (htne : t ≠ []) : trim (s ++ t) = s ++ t := by
  obtain ⟨c, s, rfl⟩ := List.exists_cons_of_ne_nil hsne
  have hc : isBlank c = false := by
    have hstart := List.head?_dropWhile_not isBlank (c :: s)
    have hself : (c :: s).dropWhile isBlank = c :: s := trimStart_eq_self hs
    simpa [hself] using hstart
  have hstart : trimStart (c :: s ++ t) = c :: s ++ t := by
    rw [trimStart, List.cons_append, List.dropWhile_cons_of_neg (by simp [hc])]
  rw [trim, hstart, trimEnd_append ht htne]

/-- Blanks around a text without blanks are trimmed. -/
theorem trim_surrounded {a s b : Text} (hs : ∀ c ∈ s, isBlank c = false)
    (ha : ∀ c ∈ a, isBlank c = true) (hb : ∀ c ∈ b, isBlank c = true) :
    trim (a ++ (s ++ b)) = s := by
  rcases s with _ | ⟨c, s⟩
  · refine trim_eq_nil_iff.mpr fun c hc => ?_
    rcases List.mem_append.mp hc with hc | hc
    · exact ha c hc
    · exact hb c hc
  · have hc : isBlank c = false := hs c List.mem_cons_self
    have hstart : trimStart (a ++ (c :: s ++ b)) = c :: s ++ b := by
      rw [trimStart, List.dropWhile_append_of_pos ha, List.cons_append,
        List.dropWhile_cons_of_neg (by simp [hc])]
    rw [trim, hstart, trimEnd_append_blanks hb, trimEnd_eq_self hs]

/-- Blanks behind a text are trimmed, whatever the text. -/
theorem trim_append_blanks {b : Text} (hb : ∀ c ∈ b, isBlank c = true) (s : Text) :
    trim (s ++ b) = trim s := by
  by_cases hs : ∀ c ∈ s, isBlank c = true
  · rw [trim_eq_nil_iff.mpr hs, trim_eq_nil_iff]
    exact fun c hc => (List.mem_append.mp hc).elim (hs c) (hb c)
  · have hstart : (s.dropWhile isBlank).isEmpty = false := by
      rw [Bool.eq_false_iff, ne_eq, List.isEmpty_iff]
      exact fun h => hs (trimStart_eq_nil_iff.mp h)
    rw [trim, trim, trimStart, trimStart, List.dropWhile_append, hstart, if_neg (by decide),
      trimEnd_append_blanks hb]

theorem trimEnd_append_of_ne_nil {t : Text} (ht : trimEnd t ≠ []) (s : Text) :
    trimEnd (s ++ t) = s ++ trimEnd t := by
  induction s with
  | nil => rfl
  | cons c s ih =>
    rw [List.cons_append, trimEnd, ih]
    rcases hst : s ++ trimEnd t with _ | ⟨d, u⟩
    · exact absurd (List.append_eq_nil_iff.mp hst).2 ht
    · rw [List.cons_append, hst]

/-- Trimming takes nothing out of a part of the text that has no blanks. -/
theorem infix_trim {m s : Text} (hm : ∀ c ∈ m, isBlank c = false) (h : m <:+: s) :
    m <:+: trim s := by
  rcases m with _ | ⟨c, m⟩
  · exact List.nil_infix
  obtain ⟨a, b, rfl⟩ := h
  have hc : isBlank c = false := hm c List.mem_cons_self
  have hstart : ∃ a', trimStart (a ++ (c :: m) ++ b) = a' ++ (c :: m) ++ b := by
    rw [trimStart, List.append_assoc, List.dropWhile_append, List.cons_append,
      List.dropWhile_cons_of_neg (by simp [hc])]
    split
    · exact ⟨[], rfl⟩
    · exact ⟨a.dropWhile isBlank, by simp⟩
  obtain ⟨a', ha'⟩ := hstart
  rw [trim, ha']
  by_cases hb : trimEnd b = []
  · rw [trimEnd_append_blanks (trimEnd_eq_nil_iff.mp hb),
      trimEnd_append hm (List.cons_ne_nil c m)]
    exact List.suffix_append a' (c :: m) |>.isInfix
  · rw [trimEnd_append_of_ne_nil hb]
    exact ⟨a', trimEnd b, rfl⟩

end Text

end ConfigTemplate
