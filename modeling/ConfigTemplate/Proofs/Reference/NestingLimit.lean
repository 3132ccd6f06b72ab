/-
Paths that nest too deep.

Nothing is a placeholder that nests as deep as the limit.  Such a path is refused as a whole,
and the search goes on behind its first brace.

* `interior_printParts_of_deep`: reading fails somewhere in a path that nests too deep;
* `interior_brace_printParts`: and in any path that is read from one brace too early;
* `tokens_scanFrom_print_of_deep`: so only the paths that are nested directly in it are found,
  each of which is cut again as it is by itself;
* `placeholders_print`: what is written is read again up to the limit, and above it falls into
  what stands between the outermost braces.

Design notes: how deep a path nests is the maximum over its branches, and the machine fails at
the first branch that reaches the limit.  The branches before that one are read as usual, so
the inductions are on the parts, with any level to begin with.
-/
import ConfigTemplate.Proofs.Reference.Leftmost
import ConfigTemplate.Proofs.Reference.Lines
import ConfigTemplate.Proofs.Reference.Printing

namespace ConfigTemplate

namespace Placeholder

/-! ### Where reading fails -/

/-- Braces lead nowhere if what stands in them does not, or if no more can be open. -/
theorem interior_opening_eq_none {outer : List Level} {l : Level} {s : Text}
    (h : outer.length + 1 < maxNesting → interior (l :: outer) .empty s = none) :
    interior outer l ('\x7b' :: '\x7b' :: s) = none := by
  by_cases hopen : outer.length + 1 < maxNesting
  · rw [interior_opening _ _ _ hopen, h hopen]
  · rw [interior, if_neg (by decide), if_neg hopen]

theorem interior_text {s : Text} (hs : ∀ c ∈ s, isPathChar c = true) (outer : List Level)
    (l : Level) (rest : Text) :
    interior outer l (s ++ rest) = interior outer (s.foldl Level.push l) rest := by
  have hread : Reads outer.length l (s ++ []) _ := Reads.text_append hs .done
  rw [List.append_nil] at hread
  exact hread.interior_append outer rfl rest

/-- A nested path that is not too deep is read as a whole. -/
theorem interior_print {p : Path} (h : p.WellFormed) {outer : List Level}
    (hd : outer.length + 1 + p.depth < maxNesting) (l : Level) (rest : Text) :
    interior outer l (p.print ++ rest) =
      interior outer (l.pushRef p.canonical p.print) rest := by
  obtain ⟨i, hi, hpath, htext⟩ := h.exists_reads hd
  have hread := Reads.ref (by omega) hi hpath (.done : Reads _ (l.pushRef p.canonical i.text) _ _)
  have hprint : p.print ++ rest =
      '\x7b' :: '\x7b' :: (Path.printParts p.parts ++ ['\x7d', '\x7d']) ++ rest := by
    rw [Path.print_eq]
  rw [hprint, hread.interior_append outer rfl rest, htext]

/-- **Reading fails in a path that nests too deep**, at the first branch that reaches the
limit. -/
theorem interior_printParts_of_deep {p : Path} (h : p.WellFormed) (outer : List Level)
    (houter : outer.length < maxNesting) (hdeep : maxNesting ≤ outer.length + p.depth)
    (l : Level) (rest : Text) : interior outer l (Path.printParts p.parts ++ rest) = none := by
  induction p generalizing outer l rest with
  | mk raw parts ih =>
    -- The parts that are still to be read reach the limit, whatever was read before.
    refine h.induct_parts (motive := fun parts =>
      maxNesting ≤ outer.length + Path.depthParts parts → ∀ l,
        interior outer l (Path.printParts parts ++ rest) = none) ?nil ?text ?ref hdeep l
    case nil => exact fun hdeep => absurd hdeep (Nat.not_le.mpr houter)
    case text =>
      intro s parts hs ihparts hdeep l
      rw [Path.printParts, List.append_assoc, interior_text hs]
      exact ihparts hdeep _
    case ref =>
      intro q parts hmem hq ihparts hdeep l
      rw [Path.depthParts] at hdeep
      rw [Path.printParts, List.append_assoc]
      by_cases hshallow : outer.length + 1 + q.depth < maxNesting
      · rw [interior_print hq hshallow]
        exact ihparts (by omega) _
      · -- The limit is reached inside this nested path.
        rw [Path.print_eq, List.cons_append, List.cons_append, List.append_assoc]
        refine interior_opening_eq_none fun hopen => ?_
        exact ih q hmem hq (l :: outer) hopen (by rw [List.length_cons]; omega) _ _

/-- **Reading fails in a path that is read from one brace too early**: its braces pair up
wrongly down to the first text, and a single brace stands in front of that. -/
theorem interior_brace_printParts {p : Path} (h : p.WellFormed) (outer : List Level) (l : Level)
    (rest : Text) : interior outer l ('\x7b' :: (Path.printParts p.parts ++ rest)) = none := by
  induction p generalizing outer l rest with
  | mk raw parts ih =>
    rcases h.begins with ⟨c, s, hs, hc, -⟩ | ⟨q, s, hq, hs⟩
    · have hbrace : c ≠ '\x7b' := ne_of_isPathChar hc (by decide)
      rw [hs, interior, if_neg (by decide)]
      · exact fun u _ hu => hbrace (List.cons.inj hu).1
      · exact fun u hb _ => absurd hb (by decide)
    · rw [hs, List.cons_append, List.cons_append, List.append_assoc]
      exact interior_opening_eq_none fun _ => ih q hq (h.of_ref hq) _ _ _

end Placeholder

open Placeholder

theorem placeholder?_of_ne {c : Char} (hc : c ≠ '\x7b') (s : Text) :
    placeholder? (c :: s) = none := by
  simp [placeholder?, hc]

theorem placeholder?_of_interior {c : Char} {s : Text} (hc : isPad c = false)
    (hsigil : sigil? c = none) (h : interior [] .empty (c :: s) = none) :
    placeholder? ('\x7b' :: '\x7b' :: c :: s) = none := by
  have hlead := placeholder?_lead s padding_nil hc
  rwa [hsigil, h] at hlead

theorem placeholder?_print_of_deep {p : Path} (h : p.WellFormed) (hdeep : maxNesting ≤ p.depth)
    (rest : Text) : placeholder? (p.print ++ rest) = none := by
  obtain ⟨c, s, hs, hc, hsigil⟩ := h.exists_cons
  have hnone := interior_printParts_of_deep h [] (by decide) (by simpa using hdeep) .empty
    ('\x7d' :: '\x7d' :: rest)
  rw [hs] at hnone
  rw [Path.print_eq, hs]
  simpa using placeholder?_of_interior hc hsigil hnone

/-- The second of the opening braces begins nothing either. -/
theorem placeholder?_brace_printParts {p : Path} (h : p.WellFormed) (rest : Text) :
    placeholder? ('\x7b' :: (Path.printParts p.parts ++ rest)) = none := by
  rcases h.begins with ⟨c, s, hs, hc, -⟩ | ⟨q, s, hq, hs⟩
  · have hbrace : c ≠ '\x7b' := ne_of_isPathChar hc (by decide)
    simp [hs, placeholder?, hbrace]
  · have hnone := interior_brace_printParts (h.of_ref hq) [] .empty (s ++ rest)
    rw [hs]
    simpa using placeholder?_of_interior (by decide) (by decide) hnone

/-! ### Where the nested paths sit -/

/-- The paths that are nested directly among parts, with the number of bytes in front of each,
if the parts begin behind `n` bytes. -/
def Path.sites (n : Nat) : List Part → List (Nat × Path)
  | [] => []
  | .text s :: ps => sites (n + s.byteLength) ps
  | .ref p :: ps => (n, p) :: sites (n + p.print.byteLength) ps

theorem Path.exists_of_mem_sites {n k : Nat} {q : Path} {parts : List Part}
    (h : (k, q) ∈ sites n parts) :
    ∃ u v, printParts parts = u ++ (q.print ++ v) ∧ n + u.byteLength = k := by
  induction parts generalizing n with
  | nil => cases h
  | cons part parts ih =>
    -- What stands in front of the other parts is longer by the first one.
    have hbehind : ∀ s, printParts (part :: parts) = s ++ printParts parts →
        (k, q) ∈ sites (n + s.byteLength) parts →
          ∃ u v, printParts (part :: parts) = u ++ (q.print ++ v) ∧ n + u.byteLength = k := by
      intro s hs hmem
      obtain ⟨u, v, huv, hk⟩ := ih hmem
      refine ⟨s ++ u, v, by rw [hs, huv, List.append_assoc], ?_⟩
      rw [Text.byteLength_append, ← Nat.add_assoc, hk]
    cases part with
    | text s => exact hbehind s rfl h
    | ref p =>
      rcases List.mem_cons.mp h with heq | hmem
      · obtain ⟨rfl, rfl⟩ := Prod.mk.inj heq
        exact ⟨[], printParts parts, rfl, rfl⟩
      · exact hbehind p.print rfl hmem

/-- A nested path is written where it sits. -/
theorem Path.print_of_mem_sites {p q : Path} {k : Nat} (h : (k, q) ∈ sites 2 p.parts) :
    ∃ u v, p.print = u ++ (q.print ++ v) ∧ u.byteLength = k := by
  obtain ⟨u, v, huv, rfl⟩ := exists_of_mem_sites h
  have hbraces : Text.byteLength ['\x7b', '\x7b'] = 2 := by decide
  refine ⟨'\x7b' :: '\x7b' :: u, v ++ ['\x7d', '\x7d'], ?_, ?_⟩
  · rw [print_eq, huv]
    simp
  · exact (Text.byteLength_append ['\x7b', '\x7b'] u).trans (by rw [hbraces])

theorem newline_not_mem_of_isPathChar {s : Text} (hs : ∀ c ∈ s, isPathChar c = true) :
    '\n' ∉ s :=
  fun hn => absurd (hs _ hn) (by decide)

theorem Path.WellFormed.newline_not_mem {p : Path} (h : p.WellFormed) :
    '\n' ∉ printParts p.parts := by
  induction p with
  | mk raw parts ih =>
    refine h.induct_parts (motive := fun parts => '\n' ∉ printParts parts) ?nil ?text ?ref
    case nil => simp [printParts]
    case text =>
      intro s parts hs hparts
      simp [printParts, newline_not_mem_of_isPathChar hs, hparts]
    case ref =>
      intro q parts hmem hq hparts
      simpa [printParts, print_eq, hparts] using ih q hmem hq

theorem Path.WellFormed.newline_not_mem_print {p : Path} (h : p.WellFormed) : '\n' ∉ p.print := by
  simpa [print_eq] using h.newline_not_mem

theorem tokens_scanFrom_shift (recognise : Recogniser) (n : Nat) (m : Mark) (skip : Nat)
    (s : Text) :
    (scanFrom recognise ⟨m.line, m.offset + n⟩ skip s).tokens =
      (scanFrom recognise m skip s).tokens.map (·.shift n) := by
  induction s generalizing m skip with
  | nil => simp [scanFrom, Segments.tokens]
  | cons c s ih =>
    have hnext : Mark.next ⟨m.line, m.offset + n⟩ c = ⟨(m.next c).line, (m.next c).offset + n⟩ := by
      simp only [Mark.next, Nat.add_right_comm]
    rcases skip with _ | skip
    · rw [scanFrom, scanFrom, hnext]
      rcases recognise (c :: s) with _ | x
      · rw [Segments.tokens_cons, Segments.tokens_cons, ih]
      · simp only [Segments.tokens, ih, List.map_cons]
        rfl
    · rw [scanFrom, scanFrom, hnext, ih]

/-! ### What is found in a path -/

theorem Mark.past_of_newline_not_mem {s : Text} (hs : '\n' ∉ s) (m : Mark) :
    m.past s = ⟨m.line, m.offset + s.byteLength⟩ := by
  rw [Mark.past_eq, Text.newlines, List.count_eq_zero.mpr hs, Nat.add_zero]

/-- Whether a path that is written is cut as it is by itself, wherever it stands on the first
line and whatever stands behind it. -/
def Path.StandsAlone (p : Path) : Prop :=
  ∀ (n : Nat) (rest : Text), (scanFrom placeholder? ⟨1, n⟩ 0 (p.print ++ rest)).tokens =
    (placeholders p.print).tokens.map (·.shift n) ++
      (scanFrom placeholder? ⟨1, n + p.print.byteLength⟩ 0 rest).tokens

/-- What is found in the paths that are nested directly among parts, each by itself. -/
def Path.nestedTokens (n : Nat) (parts : List Part) : List Token :=
  (sites n parts).flatMap fun site => (placeholders site.2.print).tokens.map (·.shift site.1)

theorem tokens_scanFrom_printParts {p : Path} (h : p.WellFormed)
    (hrefs : ∀ q, .ref q ∈ p.parts → q.StandsAlone) (n : Nat) (rest : Text) :
    (scanFrom placeholder? ⟨1, n⟩ 0 (Path.printParts p.parts ++ rest)).tokens =
      Path.nestedTokens n p.parts ++
        (scanFrom placeholder? ⟨1, n + (Path.printParts p.parts).byteLength⟩ 0 rest).tokens := by
  refine h.induct_parts (motive := fun parts => ∀ n,
    (scanFrom placeholder? ⟨1, n⟩ 0 (Path.printParts parts ++ rest)).tokens =
      Path.nestedTokens n parts ++
        (scanFrom placeholder? ⟨1, n + (Path.printParts parts).byteLength⟩ 0 rest).tokens)
    ?nil ?text ?ref n
  case nil => exact fun n => rfl
  case text =>
    intro s parts hs ih n
    have hgap : ∀ u v, s = u ++ v → v ≠ [] →
        placeholder? (v ++ (Path.printParts parts ++ rest)) = none := by
      intro u v huv hv
      obtain ⟨c, v, rfl⟩ := List.exists_cons_of_ne_nil hv
      have hc : isPathChar c = true := hs c (by simp [huv])
      exact placeholder?_of_ne (ne_of_isPathChar hc (by decide)) _
    rw [Path.printParts, List.append_assoc, tokens_scanFrom_gap hgap,
      Mark.past_of_newline_not_mem (newline_not_mem_of_isPathChar hs), ih, Text.byteLength_append,
      ← Nat.add_assoc]
    rfl
  case ref =>
    intro q parts hmem hq ih n
    rw [Path.printParts, List.append_assoc, hrefs q hmem, ih, Text.byteLength_append,
      ← Nat.add_assoc, ← List.append_assoc]
    rfl

theorem tokens_scanFrom_print_of_shallow {p : Path} (h : p.WellFormed)
    (hd : p.depth < maxNesting) (m : Mark) (rest : Text) :
    (scanFrom placeholder? m 0 (p.print ++ rest)).tokens =
      p.lexeme.token m :: (scanFrom placeholder? (m.past p.print) 0 rest).tokens := by
  have hne : p.lexeme.text ≠ [] := by simp [Path.lexeme, Path.print_eq]
  exact tokens_scanFrom_found hne (placeholder?_print h hd rest)

theorem tokens_scanFrom_next {recognise : Recogniser} {c : Char} {s : Text}
    (hc : recognise (c :: s) = none) (m : Mark) :
    (scanFrom recognise m 0 (c :: s)).tokens = (scanFrom recognise (m.next c) 0 s).tokens := by
  rw [scanFrom, hc, Segments.tokens_cons]

/-- **In a path that nests too deep, only the paths nested directly in it are found.** -/
theorem tokens_scanFrom_print_of_deep {p : Path} (h : p.WellFormed)
    (hdeep : maxNesting ≤ p.depth) (hrefs : ∀ q, .ref q ∈ p.parts → q.StandsAlone) (n : Nat)
    (rest : Text) :
    (scanFrom placeholder? ⟨1, n⟩ 0 (p.print ++ rest)).tokens =
      Path.nestedTokens (n + 2) p.parts ++
        (scanFrom placeholder? ⟨1, n + p.print.byteLength⟩ 0 rest).tokens := by
  have hprint : p.print ++ rest =
      '\x7b' :: '\x7b' :: (Path.printParts p.parts ++ '\x7d' :: '\x7d' :: rest) := by
    simp [Path.print_eq]
  have hfirst := placeholder?_print_of_deep h hdeep rest
  have hlength : p.print.byteLength = (Path.printParts p.parts).byteLength + 4 := by
    have hbrace : '\x7b'.utf8Size = 1 ∧ '\x7d'.utf8Size = 1 := by decide
    simp only [Path.print_eq, Text.byteLength_cons, Text.byteLength_append, Text.byteLength_nil,
      hbrace]
    omega
  rw [hprint] at hfirst ⊢
  rw [tokens_scanFrom_next hfirst, tokens_scanFrom_next (placeholder?_brace_printParts h _)]
  -- No brace of the two at the end begins anything either.
  have hclose : ∀ s, placeholder? ('\x7d' :: s) = none := placeholder?_of_ne (by decide)
  have hparts := tokens_scanFrom_printParts h hrefs (n + 2) ('\x7d' :: '\x7d' :: rest)
  rw [tokens_scanFrom_next (hclose _), tokens_scanFrom_next (hclose _)] at hparts
  have hend : n + p.print.byteLength = n + 2 + (Path.printParts p.parts).byteLength + 2 := by omega
  rw [hend]
  exact hparts

/-- It is enough that what is found in the path does not depend on what stands behind it. -/
theorem Path.standsAlone_of {p : Path}
    (h : ∀ n, ∃ ts, ∀ rest, (scanFrom placeholder? ⟨1, n⟩ 0 (p.print ++ rest)).tokens =
      ts ++ (scanFrom placeholder? ⟨1, n + p.print.byteLength⟩ 0 rest).tokens) :
    p.StandsAlone := by
  intro n rest
  obtain ⟨ts, hts⟩ := h n
  have halone : (scanFrom placeholder? ⟨1, n⟩ 0 p.print).tokens = ts := by
    simpa [scanFrom, Segments.tokens] using hts []
  have hshift := tokens_scanFrom_shift placeholder? n ⟨1, 0⟩ 0 p.print
  rw [Nat.zero_add] at hshift
  rw [hts, ← halone, hshift]
  rfl

/-- **A path that is written is cut as it is by itself**, wherever it stands. -/
theorem Path.WellFormed.standsAlone {p : Path} (h : p.WellFormed) : p.StandsAlone := by
  induction p with
  | mk raw parts ih =>
    have hrefs : ∀ q, .ref q ∈ parts → q.StandsAlone := fun q hq => ih q hq (h.of_ref hq)
    refine standsAlone_of fun n => ?_
    by_cases hd : depth ⟨raw, parts⟩ < maxNesting
    · refine ⟨[(lexeme ⟨raw, parts⟩).token ⟨1, n⟩], fun rest => ?_⟩
      rw [tokens_scanFrom_print_of_shallow h hd,
        Mark.past_of_newline_not_mem h.newline_not_mem_print]
      rfl
    · exact ⟨_, fun rest => tokens_scanFrom_print_of_deep h (Nat.not_lt.mp hd) hrefs n rest⟩

/-! ### Reading what is written -/

/-- **What is written is read again, up to the limit.**  A path that nests less deep than the
limit is one placeholder, which spans all of its text and has the path in it.  In a deeper one
nothing is found but what is found in each of the paths directly in it, in order, moved to
where that path is written. -/
theorem placeholders_print {p : Path} (h : p.WellFormed) :
    (p.depth ≤ maxNesting - 1 → ∃ t, (placeholders p.print).tokens = [t] ∧
      t.text = p.print ∧ t.line = 1 ∧ t.start = 0 ∧ t.stop = p.print.byteLength ∧
      t.kind = (if p.isNested then .composed else .name) ∧
      t.path = p.canonical ∧ t.path.depth = p.depth ∧
      t.path.raw = (Path.printParts p.parts).trim) ∧
    (maxNesting - 1 < p.depth → (placeholders p.print).tokens =
      (Path.sites 2 p.parts).flatMap fun site =>
        (placeholders site.2.print).tokens.map (·.shift site.1)) ∧
    (∀ k q, (k, q) ∈ Path.sites 2 p.parts →
      ∃ u v, p.print = u ++ (q.print ++ v) ∧ u.byteLength = k) := by
  refine ⟨?_, ?_, fun k q => Path.print_of_mem_sites⟩
  · intro hd
    have hfound := tokens_scanFrom_print_of_shallow h (Nat.lt_of_le_pred (by decide) hd) .start []
    rw [List.append_nil] at hfound
    refine ⟨_, hfound, rfl, rfl, rfl, Nat.zero_add _, ?_, rfl, Path.depth_canonical p, ?_⟩
    · exact congrArg (if · then Kind.composed else Kind.name) (Path.isNested_canonical p)
    · exact congrArg Path.raw (Path.canonical_eq p)
  · intro hd
    have hrefs : ∀ q, .ref q ∈ p.parts → q.StandsAlone := fun q hq => (h.of_ref hq).standsAlone
    have hparts := tokens_scanFrom_print_of_deep h (Nat.le_of_pred_lt hd) hrefs 0 []
    rw [List.append_nil] at hparts
    exact hparts.trans (List.append_nil _)

/-- A path with `n` others in one another inside. -/
def Path.chain : Nat → Path
  | 0 => .literal ['a']
  | n + 1 => ⟨[], [.ref (chain n)]⟩

theorem Path.wellFormed_chain (n : Nat) : (chain n).WellFormed := by
  induction n with
  | zero =>
    refine .intro ⟨⟨?_, ?_⟩, ?_, ?_⟩ ?_
    · simp [isPathChar]
    · simp
    · simp [isPad]
    · exact ⟨_, List.mem_cons_self, by simp [Padding, isPad]⟩
    · simp
  | succ n ih =>
    refine .intro ⟨⟨?_, ?_⟩, ?_, ?_⟩ ?_
    · simp
    · simp
    · simp
    · exact ⟨_, List.mem_cons_self, by simp⟩
    · simpa using ih

/-- A path with a branch that reaches the limit, and one that does not. -/
def Path.lopsided : Path :=
  ⟨[], [.text ['a', '.'], .ref (chain 7), .ref (chain 1)]⟩

theorem Path.wellFormed_lopsided : lopsided.WellFormed := by
  refine .intro ⟨⟨?_, ?_⟩, ?_, ?_⟩ ?_
  · simp [isPathChar]
  · simp [Part.isRef]
  · simp [isPad]
  · exact ⟨_, List.mem_cons_self, by simp [Padding, isPad]⟩
  · simp [wellFormed_chain]

/-- The one falls into two placeholders, and its deeper branch is one of them. -/
theorem placeholders_print_lopsided :
    (Path.lopsided.WellFormed ∧ maxNesting - 1 < Path.lopsided.depth ∧
      (placeholders Path.lopsided.print).tokens =
        (Path.sites 2 Path.lopsided.parts).flatMap fun site =>
          (placeholders site.2.print).tokens.map (·.shift site.1)) ∧
    ((Path.chain 7).WellFormed ∧ (Path.chain 7).depth ≤ maxNesting - 1 ∧
      ∃ t, (placeholders (Path.chain 7).print).tokens = [t] ∧ t.kind = .composed ∧
        t.path = (Path.chain 7).canonical ∧ t.path.depth = 7) := by
  have hdeep : maxNesting - 1 < Path.lopsided.depth := by decide
  have hshallow : (Path.chain 7).depth ≤ maxNesting - 1 := by decide
  have hlopsided := Path.wellFormed_lopsided
  have hchain := Path.wellFormed_chain 7
  refine ⟨⟨hlopsided, hdeep, (placeholders_print hlopsided).2.1 hdeep⟩, hchain, hshallow, ?_⟩
  obtain ⟨t, ht, -, -, -, -, hkind, hpath, hdepth, -⟩ := (placeholders_print hchain).1 hshallow
  exact ⟨t, ht, hkind, hpath, hdepth⟩

/-- The text and the outermost braces are left out. -/
example : (placeholders Path.lopsided.print).tokens.map (fun t => (t.start, t.stop)) =
    [(4, 37), (37, 46)] := by decide

end ConfigTemplate
