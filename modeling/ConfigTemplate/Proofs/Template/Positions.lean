/-
Templates by byte positions.

* `tokensFrom_eq`: from one call for a placeholder to the next, scanning by positions finds the
  tokens of the text;
* `nodesFrom_eq`: and between them it finds the text of the nodes;
* `reading_by_positions_never_fails`: so no step that is checked ever fails, from the bytes to
  the template.
-/
import ConfigTemplate.Proofs.Reference.Calls
import ConfigTemplate.Proofs.Reference.Spans
import ConfigTemplate.Template.Node

namespace ConfigTemplate

open Placeholder

namespace ByPosition

/-- The number of bytes before the first opening braces. -/
def opening? : Text → Option Nat
  | [] => none
  | c :: s =>
    if c = '\x7b' ∧ s.head? = some '\x7b' then some 0
    else (opening? s).map (c.utf8Size + ·)

/-- The tokens from `pos` on, each with the position behind it.  The newlines before `counted`
are counted in `line`. -/
def tokensFrom (source : Text) (pos line counted : Nat) :
    Except Trap (List (Token × Nat)) := do
  match opening? (← slice source pos source.byteLength) with
  | none => return []
  | some before =>
    let start := pos + before
    match ← scanAt source maxNesting start 0 with
    | none =>
      -- The second brace may still open one.
      if _h : pos < start + 1 ∧ start + 1 ≤ source.byteLength then
        tokensFrom source (start + 1) line counted
      else
        throw (.stalled pos)
    | some found =>
      let line := line + (← slice source counted start).newlines
      let text ← slice source start found.stop
      if _h : pos < found.stop ∧ found.stop ≤ source.byteLength then
        let rest ← tokensFrom source found.stop line start
        return (⟨found.kind, found.path, text, ⟨line, start⟩⟩, found.stop) :: rest
      else
        throw (.stalled pos)
termination_by source.byteLength - pos
decreasing_by
  · omega
  · omega

/-- The tokens of a text, each with the position behind it. -/
def tokens (source : Text) : Except Trap (List (Token × Nat)) :=
  tokensFrom source 0 1 0

/-- Build nodes from tokens with the positions behind them.  The text up to `cursor` is in them
already. -/
def nodesFrom (source : Text) (cursor : Nat) (outer : List (Token × List Node))
    (body : List Node) : List (Token × Nat) → Except Trap (Except Fault (List Node))
  | [] =>
    match outer with
    | [] => do return .ok (← pushSlice .text source cursor source.byteLength body)
    | (tag, _) :: _ => return .error (.unclosed (Node.name tag) tag.line)
  | (t, stop) :: ts => do
    let body ← pushSlice .text source cursor t.start body
    match t.kind with
    | .opening | .inverted => nodesFrom source stop ((t, body) :: outer) [] ts
    | .closing =>
      match outer with
      | [] => return .error (.unopened (Node.name t) t.line)
      | (tag, before) :: outer =>
        if Node.name tag = Node.name t then
          nodesFrom source stop outer (before ++ [.block tag body]) ts
        else return .error (.mismatched (Node.name tag) (Node.name t) t.line)
    | _ => nodesFrom source stop outer (body ++ [.reference t]) ts

/-- Parse a template. -/
def parse (source : Text) : Except Trap (Except Fault Template) := do
  let nodes ← nodesFrom source 0 [] [] (← tokens source)
  return nodes.map Template.mk

/-! ### From one call to the next -/

/-- Nothing but opening braces begins a placeholder. -/
theorem placeholder?_of_not_pair {c : Char} {s : Text}
    (h : ¬ (c = '\x7b' ∧ s.head? = some '\x7b')) : placeholder? (c :: s) = none := by
  unfold placeholder?
  split
  · next heq =>
    obtain ⟨rfl, rfl⟩ := List.cons.inj heq
    exact absurd ⟨rfl, rfl⟩ h
  · rfl

/-- The first opening braces are in front of the first placeholder. -/
theorem exists_of_opening? {s : Text} {n : Nat} (h : opening? s = some n) :
    ∃ gap w, s = gap ++ '\x7b' :: '\x7b' :: w ∧ n = gap.byteLength ∧
      ∀ u v, gap = u ++ v → v ≠ [] → placeholder? (v ++ '\x7b' :: '\x7b' :: w) = none := by
  induction s generalizing n with
  | nil => cases h
  | cons c s ih =>
    rw [opening?] at h
    split at h
    · next hpair =>
      obtain ⟨rfl, hs⟩ := hpair
      obtain ⟨w, rfl⟩ := List.head?_eq_some_iff.mp hs
      refine ⟨[], w, rfl, (Option.some.inj h).symm, fun u v huv hv => ?_⟩
      exact absurd (List.append_eq_nil_iff.mp huv.symm).2 hv
    · next hpair =>
      obtain ⟨k, hk, rfl⟩ := Option.map_eq_some_iff.mp h
      obtain ⟨gap, w, rfl, rfl, hgap⟩ := ih hk
      refine ⟨c :: gap, w, rfl, rfl, fun u v huv hv => ?_⟩
      rcases u with _ | ⟨d, u⟩
      · rw [List.nil_append] at huv
        exact huv ▸ placeholder?_of_not_pair hpair
      · exact hgap u v (List.cons.inj huv).2 hv

theorem placeholder?_of_opening?_eq_none {s u v : Text} (h : opening? s = none)
    (hs : s = u ++ v) (hv : v ≠ []) : placeholder? v = none := by
  induction s generalizing u with
  | nil => exact absurd (List.append_eq_nil_iff.mp hs.symm).2 hv
  | cons c s ih =>
    rw [opening?] at h
    split at h
    · cases h
    · next hpair =>
      rcases u with _ | ⟨d, u⟩
      · rw [List.nil_append] at hs
        exact hs ▸ placeholder?_of_not_pair hpair
      · exact ih (Option.map_eq_none_iff.mp h) (List.cons.inj hs).2

/-- A token with the position behind it. -/
def withStop (t : Token) : Token × Nat :=
  (t, t.stop)

section

variable {source u gap w : Text} {line : Nat}

theorem slice_rest {v : Text} (hsource : source = u ++ v) :
    slice source u.byteLength source.byteLength = .ok v := by
  have h := slice_append u v []
  rwa [List.append_nil, ← hsource] at h

/-- A turn at braces that open nothing goes on behind the first of them. -/
theorem tokensFrom_next (hsource : source = u ++ (gap ++ '\x7b' :: '\x7b' :: w))
    (hbraces : opening? (gap ++ '\x7b' :: '\x7b' :: w) = some gap.byteLength)
    (hnone : placeholder? ('\x7b' :: '\x7b' :: w) = none) (counted : Nat) :
    tokensFrom source u.byteLength line counted =
      tokensFrom source (u ++ gap ++ ['\x7b']).byteLength line counted := by
  have hstart : u.byteLength + gap.byteLength = (u ++ gap).byteLength :=
    (Text.byteLength_append u gap).symm
  have hcall := scanAt_outermost (hsource.trans (List.append_assoc u gap _).symm)
  have hturn : u.byteLength < (u ++ gap).byteLength + 1 ∧
      (u ++ gap).byteLength + 1 ≤ source.byteLength := by
    have h := @length_lt_of_byteLength u (gap ++ ['\x7b']) ('\x7b' :: w) (by simp)
    rwa [← List.append_assoc, byteLength_snoc (by decide), List.append_assoc, List.singleton_append,
      List.append_assoc, ← hsource] at h
  rw [tokensFrom, slice_rest hsource]
  show (match opening? _ with | none => _ | some before => _) = _
  rw [hbraces]
  show (do
    let found ← scanAt source maxNesting (u.byteLength + gap.byteLength) 0
    _) = _
  rw [hstart, hcall, hnone, byteLength_snoc (by decide)]
  exact dif_pos hturn

/-- A turn at a placeholder takes all of it. -/
theorem tokensFrom_found {c e rest : Text} {x : Lexeme} (hcounted : u = c ++ e)
    (hsource : source = u ++ (gap ++ '\x7b' :: '\x7b' :: w))
    (hbraces : opening? (gap ++ '\x7b' :: '\x7b' :: w) = some gap.byteLength)
    (hx : placeholder? ('\x7b' :: '\x7b' :: w) = some x)
    (hrest : '\x7b' :: '\x7b' :: w = x.text ++ rest) :
    tokensFrom source u.byteLength line c.byteLength = (do
      let ts ← tokensFrom source (u ++ gap ++ x.text).byteLength (line + (e ++ gap).newlines)
        (u ++ gap).byteLength
      return withStop (x.token ⟨line + (e ++ gap).newlines, (u ++ gap).byteLength⟩) :: ts) := by
  have hstart : u.byteLength + gap.byteLength = (u ++ gap).byteLength :=
    (Text.byteLength_append u gap).symm
  have hcall := scanAt_outermost (hsource.trans (List.append_assoc u gap _).symm)
  have hbehind : source = u ++ gap ++ x.text ++ rest := by
    rw [hsource, hrest]
    simp
  have hgap : slice source c.byteLength (u ++ gap).byteLength = .ok (e ++ gap) := by
    have h := slice_append c (e ++ gap) (x.text ++ rest)
    rwa [← List.append_assoc c, ← hcounted, ← List.append_assoc (u ++ gap), ← hbehind] at h
  have htext : slice source (u ++ gap).byteLength (u ++ gap ++ x.text).byteLength = .ok x.text := by
    rw [hbehind, slice_append]
  have hturn : u.byteLength < (u ++ gap ++ x.text).byteLength ∧
      (u ++ gap ++ x.text).byteLength ≤ source.byteLength := by
    have hne := (placeholder?_sound _ _ hx).1
    have h := @length_lt_of_byteLength u (gap ++ x.text) rest (by simp [hne])
    rwa [← List.append_assoc, ← hbehind] at h
  have hstop : ∀ n, withStop (x.token ⟨n, (u ++ gap).byteLength⟩) =
      (⟨x.kind, x.path, x.text, ⟨n, (u ++ gap).byteLength⟩⟩, (u ++ gap ++ x.text).byteLength) := by
    intro n
    rw [Text.byteLength_append (u ++ gap)]
    rfl
  rw [tokensFrom, slice_rest hsource]
  show (match opening? _ with | none => _ | some before => _) = _
  rw [hbraces]
  show (do
    let found ← scanAt source maxNesting (u.byteLength + gap.byteLength) 0
    _) = _
  rw [hstart, hcall, hx]
  show (do
    let between ← slice source c.byteLength (u ++ gap).byteLength
    _) = _
  rw [hgap]
  show (do
    let text ← slice source (u ++ gap).byteLength (u ++ gap ++ x.text).byteLength
    _) = _
  rw [htext, hstop]
  exact dif_pos hturn

end

/-- **Scanning finds the tokens of the text.**  It is at the end of `u`, and its newlines are
counted up to the end of `c`. -/
theorem tokensFrom_eq {source u v c e : Text} (hsource : source = u ++ v) (hcounted : u = c ++ e) :
    tokensFrom source u.byteLength (Mark.start.past c).line c.byteLength =
      .ok ((scanFrom placeholder? (Mark.start.past u) 0 v).tokens.map withStop) := by
  generalize hn : v.length = n
  induction n using Nat.strongRecOn generalizing u v c e with
  | ind n ih =>
    subst hn
    rcases hv : opening? v with _ | before
    · have hgap := @tokens_scanFrom_gap placeholder? (Mark.start.past u) v [] fun x y hxy hy => by
        rw [List.append_nil]
        exact placeholder?_of_opening?_eq_none hv hxy hy
      rw [List.append_nil] at hgap
      rw [tokensFrom, slice_rest hsource, hgap]
      show (match opening? v with | none => _ | some before => _) = _
      rw [hv]
      rfl
    · obtain ⟨gap, w, rfl, rfl, hgap⟩ := exists_of_opening? hv
      rw [tokens_scanFrom_gap hgap, ← Mark.past_append]
      rcases hx : placeholder? ('\x7b' :: '\x7b' :: w) with _ | x
      · have hlen : ('\x7b' :: w).length < (gap ++ '\x7b' :: '\x7b' :: w).length := by
          simp
          omega
        have hbehind : source = u ++ gap ++ ['\x7b'] ++ '\x7b' :: w := by
          rw [hsource]
          simp
        have hfront : u ++ gap ++ ['\x7b'] = c ++ (e ++ (gap ++ ['\x7b'])) := by
          rw [hcounted]
          simp
        have hnext := ih _ hlen hbehind hfront rfl
        rw [tokensFrom_next hsource hv hx, tokens_scanFrom_next hx, hnext, Mark.past_append]
        rfl
      · obtain ⟨hne, rest, hrest⟩ := placeholder?_sound _ _ hx
        have hlen : rest.length < (gap ++ '\x7b' :: '\x7b' :: w).length := by
          have hpos := List.length_pos_iff.mpr hne
          rw [← hrest, List.length_append, List.length_append]
          omega
        have hbehind : source = u ++ gap ++ x.text ++ rest := by
          rw [hsource, ← hrest]
          simp
        have hmark : Mark.start.past (u ++ gap) =
            ⟨(Mark.start.past c).line + (e ++ gap).newlines, (u ++ gap).byteLength⟩ := by
          rw [hcounted, List.append_assoc c, Mark.past_eq, Mark.past_eq]
          simp [Mark.start, Nat.add_assoc]
        have hnext := ih _ hlen hbehind (c := u ++ gap) rfl rfl
        rw [hmark] at hnext
        rw [tokensFrom_found hcounted hsource hv hx hrest.symm, hnext]
        rw [← hrest] at hx ⊢
        rw [tokens_scanFrom_found hne hx, ← Mark.past_append, hmark]
        rfl

theorem tokens_eq (source : Text) :
    tokens source = .ok ((placeholders source).tokens.map withStop) :=
  tokensFrom_eq (u := []) (c := []) (e := []) rfl rfl

/-! ### From tokens to nodes -/

theorem append_literal (body : List Node) (s : Text) :
    (if s.isEmpty then body else body ++ [.text s]) = body ++ Node.literal s := by
  rw [Node.literal]
  split <;> simp

/-- **The text between placed tokens is found by their positions.** -/
theorem nodesFrom_eq {segments : Segments} {m : Mark} (h : segments.Placed m) {front : Text}
    (hm : m.offset = front.byteLength) (outer : List (Token × List Node)) (body : List Node) :
    nodesFrom (front ++ segments.source) m.offset outer body (segments.tokens.map withStop) =
      .ok (Node.build outer body segments) := by
  induction segments generalizing m front outer body with
  | last s =>
    cases outer with
    | nil =>
      have hpush := pushSlice_append .text front s [] body
      rw [List.append_nil, append_literal] at hpush
      rw [Segments.tokens, Segments.source, List.map_nil, nodesFrom, hm, hpush]
      rfl
    | cons => rfl
  | before gap t rest ih =>
    obtain ⟨hstart, hstop, hoffset⟩ := h.offsets hm
    have hnext := ih h.2 (hoffset.trans hstop)
    rw [hoffset] at hnext
    have hpush := pushSlice_append .text front gap (t.text ++ rest.source) body
    rw [← List.append_assoc (front ++ gap), ← hstart, ← hm, append_literal] at hpush
    rw [Segments.append_source_before, Segments.tokens, List.map_cons, withStop, nodesFrom, hpush]
    -- What a token does depends on its kind only.
    obtain ⟨kind, path, text, place⟩ := t
    cases kind with
    | name | composed | ampersand | envVar => exact hnext outer _
    | opening | inverted => exact hnext (_ :: outer) []
    | closing =>
      rcases outer with _ | ⟨⟨tag, before⟩, outer⟩
      · rfl
      · by_cases hname : Node.name tag = Node.name ⟨.closing, path, text, place⟩
        · refine (if_pos hname).trans ?_
          rw [Node.build, if_pos hname]
          exact hnext outer _
        · refine (if_neg hname).trans ?_
          rw [Node.build, if_neg hname]
          rfl

theorem parse_eq (source : Text) : parse source = .ok (Template.parse source) := by
  have hstart : Mark.start.offset = Text.byteLength [] := rfl
  have hnodes := nodesFrom_eq (placed_scanFrom placeholder?_sound .start 0 source) hstart [] []
  rw [source_scanFrom placeholder?_sound] at hnodes
  have hplaceholders : nodesFrom source 0 [] [] ((placeholders source).tokens.map withStop) =
      .ok (Node.build [] [] (placeholders source)) := hnodes
  rw [parse, tokens_eq]
  show (do
    let nodes ← nodesFrom source 0 [] [] ((placeholders source).tokens.map withStop)
    _) = _
  rw [hplaceholders, Template.parse]
  cases Node.build [] [] (placeholders source) <;> rfl

/-! ### From bytes to templates -/

theorem exists_of_pairAt {c : Char} {source : Text} {pos : Nat}
    (h : pairAt c source pos = true) :
    ∃ u v, source = u ++ c :: c :: v ∧ pos = u.byteLength := by
  rw [pairAt, Bool.and_eq_true, decide_eq_true_eq, decide_eq_true_eq] at h
  obtain ⟨hc, u, v, rfl, rfl⟩ := Text.asciiAt_eq_some_iff.mp h.1
  obtain ⟨w, hw⟩ := (pairAt_iff hc).mp (by simpa [pairAt] using h)
  exact ⟨u, w, by rw [hw], rfl⟩

/-- **Reading by positions never fails.**  Whatever the text, every call at opening braces
returns, with a path that leaves levels for the calls around it, and scanning and parsing find
what the text has. -/
theorem reading_by_positions_never_fails (source : Text) :
    (∀ start depth, pairAt '\x7b' source start = true → depth < maxNesting →
      ∃ found, scanAt source (maxNesting - depth) start depth = .ok found ∧
        ∀ f ∈ found, start < f.stop ∧ (∃ s, source.slice? start f.stop = some s) ∧
          f.path.depth ≤ maxNesting - 1 - depth) ∧
    tokens source = .ok ((placeholders source).tokens.map withStop) ∧
    parse source = .ok (Template.parse source) ∧
    ∀ t ∈ (placeholders source).tokens, t.path.depth ≤ maxNesting - 1 := by
  refine ⟨fun start depth hopen hdepth => ?_, tokens_eq source, parse_eq source, fun t ht => ?_⟩
  · obtain ⟨u, v, rfl, rfl⟩ := exists_of_pairAt hopen
    obtain ⟨found, hfound, hreturns⟩ := scanAt_returns hdepth rfl
    refine ⟨found, hfound, fun f hf => ?_⟩
    obtain ⟨⟨t, w, hsource, hne, hstop⟩, hpath⟩ := hreturns f hf
    refine ⟨?_, ⟨t, Text.slice?_eq_some_iff.mpr ⟨u, w, hsource, rfl, hstop⟩⟩, hpath⟩
    rw [hstop]
    exact (length_lt_of_byteLength hne (v := w)).1
  · obtain ⟨s, x, m, hx, rfl⟩ := exists_of_mem_tokens_scanFrom ht
    exact depth_of_placeholder? hx

/-- Nested braces that a character of two bytes keeps from being placeholders, and a placeholder
on the next line. -/
def accented : Text :=
  ['\u00e9', '\x7b', '\x7b', 'a', '\x7b', '\x7b', '\u00fc', '\x7d', '\x7d', '\x7d', '\x7d', '\n',
    '\x7b', '\x7b', 'b', '\x7d', '\x7d']

/-- The calls at both of the nested braces return, and scanning goes on behind them. -/
theorem reading_accented :
    pairAt '\x7b' accented 2 = true ∧ 0 < maxNesting ∧
      (∃ found, scanAt accented maxNesting 2 0 = .ok found) ∧
      pairAt '\x7b' accented 5 = true ∧ 1 < maxNesting ∧
      (∃ found, scanAt accented (maxNesting - 1) 5 1 = .ok found) ∧
      (∃ t, tokens accented = .ok [(t, 19)] ∧ t.line = 2 ∧ t.start = 14 ∧ t.path.depth = 0) := by
  obtain ⟨hcalls, htokens, -, -⟩ := reading_by_positions_never_fails accented
  have houter : pairAt '\x7b' accented 2 = true := by decide
  have hinner : pairAt '\x7b' accented 5 = true := by decide
  obtain ⟨found, hfound, -⟩ := hcalls 2 0 houter (by decide)
  obtain ⟨found', hfound', -⟩ := hcalls 5 1 hinner (by decide)
  have hplaceholders : (placeholders accented).tokens =
      [⟨.name, .literal ['b'], ['\x7b', '\x7b', 'b', '\x7d', '\x7d'], ⟨2, 14⟩⟩] := by rfl
  rw [hplaceholders] at htokens
  exact ⟨houter, by decide, ⟨found, hfound⟩, hinner, by decide, ⟨found', hfound'⟩, _, htokens,
    rfl, rfl, rfl⟩

end ByPosition

end ConfigTemplate
