/-
Scanning line by line.

A reference never spans lines, and looking for one never reads past the end of
its line.  So a text may be scanned as a whole, as parsing does, or one line at a
time, as extraction does:

* `tokens_scan_eq_flatMap_lines`: for a recogniser that stays within lines, the
  tokens of a text are those of its lines, moved to where the lines begin;
* `extract_eq_foldl_references`: an inventory is built from the references of the
  whole text, in order, each with the line it stands on;
* `references_line_by_line` puts the three together.
-/
import ConfigTemplate.Inventory.Extract
import ConfigTemplate.Proofs.Reference.EnvVar
import ConfigTemplate.Proofs.Reference.Placeholder
import ConfigTemplate.Proofs.Reference.Scanning

namespace ConfigTemplate

/-- The number of bytes before line `n` of the given lines, counted from 1, with
the newlines between them. -/
def Text.lineStart (lines : List Text) (n : Nat) : Nat :=
  Text.byteLength ((lines.take (n - 1)).flatMap fun line => line ++ ['\n'])

/-- Line `n` of a text, counted from 1. -/
def Text.line (s : Text) (n : Nat) : Text :=
  s.lines.getD (n - 1) []

/-- The token, the given number of bytes further on. -/
def Token.shift (t : Token) (bytes : Nat) : Token :=
  { t with place := ⟨t.place.line, t.place.offset + bytes⟩ }

@[simp] theorem Token.line_shift (t : Token) (bytes : Nat) : (t.shift bytes).line = t.line := rfl

/-- The references of this style in a whole text. -/
def ReferenceStyle.references (style : ReferenceStyle) (source : Text) : List Token :=
  match style with
  | placeholders => (ConfigTemplate.placeholders source).tokens
  | envVars => (ConfigTemplate.envVars source).tokens

/-- Whether a recogniser reads nothing past the end of a line. -/
def Recogniser.WithinLines (recognise : Recogniser) : Prop :=
  ∀ s t, recognise (s ++ '\n' :: t) = recognise s

/-! ### Lines -/

namespace Text

theorem newline_not_mem_of_mem_lines {s p : Text} (hp : p ∈ s.lines) : '\n' ∉ p := fun h => by
  simpa using cut_eq_false_of_mem_pieces hp '\n' h

theorem lines_ne_nil (s : Text) : s.lines ≠ [] :=
  pieces_ne_nil _ s

@[simp] theorem lineStart_succ_length (ps qs : List Text) :
    lineStart (ps ++ qs) (ps.length + 1) = byteLength (ps.flatMap fun p => p ++ ['\n']) := by
  simp [lineStart]

end Text

/-! ### Scanning -/

section

variable {recognise : Recogniser}

/-- On one line, where scanning starts settles only the line number and adds to
the offsets. -/
theorem tokens_scanFrom_line (n k bytes offset skip : Nat) {s : Text} (hs : '\n' ∉ s) :
    (scanFrom recognise ⟨n, offset + bytes⟩ skip s).tokens =
      (scanFrom recognise ⟨k, offset⟩ skip s).tokens.map fun t => (t.onLine n).shift bytes := by
  induction s generalizing offset skip with
  | nil => simp [scanFrom, Segments.tokens]
  | cons c s ih =>
    rw [List.mem_cons, not_or] at hs
    have hnext : ∀ j b, Mark.next ⟨j, b⟩ c = ⟨j, b + c.utf8Size⟩ := fun j b => by
      rw [Mark.next, if_neg (Ne.symm hs.1)]
    rcases skip with _ | skip
    · rw [scanFrom, scanFrom, hnext, hnext, Nat.add_right_comm offset bytes]
      rcases recognise (c :: s) with _ | l
      · simpa using ih (offset + c.utf8Size) 0 hs.2
      · simp only [Segments.tokens, List.map_cons, ih _ _ hs.2]
        rfl
    · rw [scanFrom, scanFrom, hnext, hnext, Nat.add_right_comm offset bytes]
      exact ih (offset + c.utf8Size) skip hs.2

theorem tokens_scan_line (n bytes : Nat) {s : Text} (hs : '\n' ∉ s) :
    (scanFrom recognise ⟨n, bytes⟩ 0 s).tokens =
      (scan recognise s).tokens.map fun t => (t.onLine n).shift bytes := by
  have h := @tokens_scanFrom_line recognise n 1 bytes 0 0 s hs
  rwa [Nat.zero_add] at h

/-- The lines `qs`, which follow the lines `ps`, can be scanned one by one. -/
theorem tokens_scanFrom_intercalate (h : recognise.Sound) (hw : recognise.WithinLines)
    (ps : List Text) {qs : List Text} (hne : qs ≠ []) (hqs : ∀ q ∈ qs, '\n' ∉ q) :
    (scanFrom recognise ⟨ps.length + 1, Text.lineStart (ps ++ qs) (ps.length + 1)⟩ 0
        (List.intercalate ['\n'] qs)).tokens =
      (qs.zipIdx (ps.length + 1)).flatMap fun (line, n) =>
        (scan recognise line).tokens.map fun t =>
          (t.onLine n).shift (Text.lineStart (ps ++ qs) n) := by
  induction qs generalizing ps with
  | nil => exact absurd rfl hne
  | cons q qs ih =>
    have hq : '\n' ∉ q := hqs q List.mem_cons_self
    rcases qs with _ | ⟨r, qs⟩
    · simpa [List.intercalate] using tokens_scan_line _ _ hq
    · -- The mark behind this line and its newline is where the next line begins.
      have hmark : (Mark.past ⟨ps.length + 1, Text.lineStart (ps ++ q :: r :: qs) (ps.length + 1)⟩
          q).next '\n' = ⟨(ps ++ [q]).length + 1,
            Text.lineStart ((ps ++ [q]) ++ r :: qs) ((ps ++ [q]).length + 1)⟩ := by
        have hcount : q.newlines = 0 := List.count_eq_zero.mpr hq
        rw [Mark.past_eq, Text.lineStart_succ_length, Text.lineStart_succ_length, Mark.next,
          if_pos rfl, hcount]
        simp
        omega
      have hrest := ih (ps ++ [q]) (by simp) fun x hx => hqs x (List.mem_cons_of_mem _ hx)
      rw [List.intercalate_cons_cons, List.append_assoc, List.singleton_append,
        tokens_scanFrom_cut h hw _ (Nat.zero_le _), tokens_scan_line _ _ hq, hmark, hrest]
      simp [List.zipIdx_cons]

/-- **The tokens of a text are those of its lines**, moved to where the lines
begin. -/
theorem tokens_scan_eq_flatMap_lines (h : recognise.Sound) (hw : recognise.WithinLines)
    (source : Text) :
    (scan recognise source).tokens =
      (source.lines.zipIdx 1).flatMap fun (line, n) =>
        (scan recognise line).tokens.map fun t =>
          (t.onLine n).shift (Text.lineStart source.lines n) := by
  have key := tokens_scanFrom_intercalate h hw [] (Text.lines_ne_nil source)
    fun q hq => Text.newline_not_mem_of_mem_lines hq
  rw [Text.intercalate_lines] at key
  simpa [Text.lineStart, scan, Mark.start] using key

end

/-! ### References line by line -/

theorem Inventory.add_shift (frames : Context) (text : Text) (a : Inventory) (t : Token)
    (bytes : Nat) : a.add frames text (t.shift bytes) = a.add frames text t := rfl

theorem ReferenceStyle.references_eq_flatMap (style : ReferenceStyle) (source : Text) :
    style.references source =
      (source.lines.zipIdx 1).flatMap fun (line, n) =>
        (style.tokens line n).map (·.shift (Text.lineStart source.lines n)) := by
  cases style with
  | placeholders =>
    simpa [references, tokens, ConfigTemplate.placeholders, placeholdersOnLine,
      Function.comp_def] using
      tokens_scan_eq_flatMap_lines placeholder?_sound placeholder?_newline source
  | envVars =>
    simpa [references, tokens, ConfigTemplate.envVars, envVarsOnLine, Function.comp_def] using
      tokens_scan_eq_flatMap_lines envVar?_sound envVar?_newline source

theorem ReferenceStyle.tokens_eq_map_references (style : ReferenceStyle) (line : Text) (n : Nat) :
    style.tokens line n = (style.references line).map (·.onLine n) := by
  cases style <;> rfl

theorem ReferenceStyle.line_of_mem_tokens (style : ReferenceStyle) {line : Text} {n : Nat}
    {t : Token} (h : t ∈ style.tokens line n) : t.line = n := by
  rw [style.tokens_eq_map_references] at h
  obtain ⟨_, -, rfl⟩ := List.mem_map.mp h
  rfl

/-- **An inventory is built from the references of the whole text**, in order, each
with the line that it stands on. -/
theorem extract_eq_foldl_references (style : ReferenceStyle) (source : Text)
    (config : Option Tree) :
    extract style source config =
      (style.references source).foldl
        (fun a t => a.add (.ofConfig config) (source.line t.line) t) .empty := by
  rw [style.references_eq_flatMap, extract, List.foldl_flatMap]
  refine List.foldl_ext _ _ _ fun a p hp => ?_
  obtain ⟨line, n⟩ := p
  rw [List.foldl_map]
  refine List.foldl_ext _ _ _ fun a t ht => ?_
  -- A line is recorded as the text of its tokens, and they know its number.
  have hline : source.line n = line := by
    rw [List.mk_mem_zipIdx_iff_le_and_getElem?_sub] at hp
    simp [Text.line, List.getD, hp.2]
  have htoken : t.line = n := style.line_of_mem_tokens ht
  rw [Token.line_shift, htoken, hline, Inventory.add_shift]

/-- **Scanning the whole text and scanning it line by line agree.**  Both kinds of
reference are found in the same places with the same line numbers, and an
inventory, which is made line by line, has the references that parsing the whole
text has. -/
theorem references_line_by_line (source : Text) :
    ((placeholders source).tokens =
      (source.lines.zipIdx 1).flatMap fun (line, n) =>
        (placeholdersOnLine line n).map (·.shift (Text.lineStart source.lines n))) ∧
    ((envVars source).tokens =
      (source.lines.zipIdx 1).flatMap fun (line, n) =>
        (envVarsOnLine line n).map (·.shift (Text.lineStart source.lines n))) ∧
    ∀ (style : ReferenceStyle) (config : Option Tree),
      extract style source config =
        (style.references source).foldl
          (fun a t => a.add (.ofConfig config) (source.line t.line) t) .empty :=
  ⟨ReferenceStyle.placeholders.references_eq_flatMap source,
    ReferenceStyle.envVars.references_eq_flatMap source,
    fun style config => extract_eq_foldl_references style source config⟩

end ConfigTemplate
