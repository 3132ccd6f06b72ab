/-
Calls for placeholders by byte positions.

* `nests_callAt`: a call inside other placeholders finds what can be read there;
* `nests_scanAt`: and there are levels enough for all of them;
* `scanAt_outermost`: so the outermost call finds the placeholder that begins there;
* `scanAt_returns`: and every call returns, behind where it began, with a path that nests no
  deeper than there are levels left.
-/
import ConfigTemplate.Proofs.Reference.Positions

namespace ConfigTemplate

open Placeholder

/-! ### How deep a path nests -/

theorem Path.depthParts_append (ps qs : List Part) :
    depthParts (ps ++ qs) = max (depthParts ps) (depthParts qs) := by
  induction ps with
  | nil => simp [depthParts]
  | cons part ps ih =>
    cases part with
    | text s => simpa [depthParts] using ih
    | ref p => simp [depthParts, ih, Nat.max_assoc]

namespace Placeholder

/-- Plain text adds nothing to the depth of a path. -/
theorem Level.depthParts_allParts (l : Level) :
    Path.depthParts l.allParts = Path.depthParts l.parts := by
  rw [allParts]
  split
  · rfl
  · simp [Path.depthParts_append, Path.depthParts]

theorem Level.parts_push (l : Level) (c : Char) : (l.push c).parts = l.parts := by
  rw [push]
  split <;> rfl

theorem Level.depthParts_pushRef (l : Level) (p : Path) (s : Text) :
    Path.depthParts (l.pushRef p s).parts = max (Path.depthParts l.parts) (p.depth + 1) := by
  rw [pushRef, Path.depthParts_append, depthParts_allParts]
  simp [Path.depthParts]

theorem Level.depth_of_path? {l : Level} {p : Path} (h : l.path? = some p) :
    p.depth = Path.depthParts l.parts := by
  obtain ⟨-, rfl⟩ := path?_eq_some_iff.mp h
  exact l.depthParts_allParts

/-- **Reading nests no deeper than there are levels left.** -/
theorem Reads.depthParts_le {d : Nat} {l r : Level} {s : Text} (h : Reads d l s r) :
    Path.depthParts r.parts ≤ max (Path.depthParts l.parts) (maxNesting - 1 - d) := by
  induction h with
  | done => exact Nat.le_max_left _ _
  | char _ _ ih => rwa [Level.parts_push] at ih
  | @ref d l l' i p t s hd _ hp _ ihi ih =>
    have hempty : Path.depthParts Level.empty.parts = 0 := rfl
    rw [Level.depthParts_pushRef, Level.depth_of_path? hp] at ih
    omega

theorem Reads.depth_le {d : Nat} {r : Level} {s : Text} {p : Path} (h : Reads d .empty s r)
    (hp : r.path? = some p) : p.depth ≤ maxNesting - 1 - d := by
  rw [Level.depth_of_path? hp]
  exact h.depthParts_le.trans (Nat.max_le.mpr ⟨Nat.zero_le _, Nat.le_refl _⟩)

theorem depth_of_placeholder? {s : Text} {x : Lexeme} (h : placeholder? s = some x) :
    x.path.depth ≤ maxNesting - 1 := by
  obtain ⟨_, _, _, t, r, p, _, -, ht, hp, -, -, rfl⟩ := placeholder?_cases h
  exact ht.depth_le hp

end Placeholder

namespace ByPosition

/-- The path that begins at a position, and the position behind its closing braces. -/
def pathAt (source : Text) (nested : Nat → Except Trap (Option Found)) (start : Nat) :
    Except Trap (Option (Path × Nat)) := do
  match ← pathFrom source nested start start [] with
  | none => return none
  | some (stop, parts) =>
    let raw := (← slice source start stop).trim
    if raw.isEmpty then return none else return some (⟨raw, parts⟩, stop + 2)

/-- What a path makes of the placeholder, in which there may be no references. -/
def Found.ofPath (kind : Path → Kind) : Path × Nat → Option Found
  | (p, stop) => if p.isNested && !mayNest (kind p) then none else some ⟨kind p, p, stop⟩

/-- One call: the placeholder whose opening braces are at `start`, with `depth` others around
it. -/
def callAt (source : Text) (nested : Nat → Except Trap (Option Found)) (start depth : Nat) :
    Except Trap (Option Found) := do
  let pos := skipPads source (start + 2)
  -- Only the outermost placeholder has a sigil.
  let sigil := if depth = 0 then (source.asciiAt pos).bind sigil? else none
  let pathStart := if sigil.isSome then skipPads source (pos + 1) else pos
  return (← pathAt source nested pathStart).bind (Found.ofPath fun p => sigil.getD (plainKind p))

/-- A call with `levels` levels of calls, itself among them. -/
def scanAt (source : Text) : (levels start depth : Nat) → Except Trap (Option Found)
  | 0, _, _ => throw .exhausted
  | levels + 1, start, depth =>
    callAt source
      (fun pos =>
        if depth + 1 < maxNesting then scanAt source levels pos (depth + 1) else return none)
      start depth

section

variable {source u v : Text} {nested : Nat → Except Trap (Option Found)} {d : Nat}

/-- The path behind the blanks at a position is what its level reads there. -/
theorem pathAt_skipPads (hnested : Nests source d nested) (hsource : source = u ++ v) :
    ∃ o, Ended d .empty v o ∧
      pathAt source nested (skipPads source u.byteLength) =
        .ok (o.bind fun x => x.2.path?.map fun p => (p, (u ++ x.1).byteLength + 2)) := by
  obtain ⟨pad, w, rfl, hpad, hw⟩ : ∃ pad w, v = pad ++ w ∧ Padding pad ∧
      ∀ c ∈ w.head?, isPad c = false :=
    ⟨v.takeWhile isPad, v.dropWhile isPad, List.takeWhile_append_dropWhile.symm,
      List.all_eq_true.mp List.all_takeWhile, fun c hc => by
        have h := List.head?_dropWhile_not isPad v
        rw [hc] at h
        simpa using h⟩
  have hstart := Follows.start (u ++ pad) pad hw
  rw [List.append_assoc, ← hsource] at hstart
  obtain ⟨o, hended, hloop, hpath⟩ := hstart.reaches hnested
  refine ⟨o.map (prepend pad), .of_pad [] hpad hended, ?_⟩
  rw [hsource, skipPads_append hpad hw, ← hsource, pathAt, hloop]
  cases hended with
  | failed h => rfl
  | @closed t x l' hv h =>
    have ht : t = l'.path := List.append_cancel_left (hpath _ rfl)
    have hslice : slice source (u ++ pad).byteLength (u ++ pad ++ t).byteLength = .ok t := by
      have hs := slice_append (u ++ pad) t ('\x7d' :: '\x7d' :: x)
      rwa [List.append_assoc _ t, ← hv, List.append_assoc u, ← hsource] at hs
    show (do
      let raw ← slice source (u ++ pad).byteLength (u ++ pad ++ t).byteLength
      _) = _
    -- The path as written is trimmed, and none is left of blanks.
    rw [hslice, ht, Option.map_some, Option.bind_some, Level.path?, prepend]
    show (if l'.path.trim.isEmpty then _ else _) = _
    by_cases hraw : l'.path.trim.isEmpty = true
    · rw [if_pos hraw, if_pos hraw]
      rfl
    · rw [if_neg hraw, if_neg hraw, ← List.append_assoc u]
      rfl

/-- What a path makes of a placeholder without a sigil. -/
theorem ofPath_plainKind (p : Path) (stop : Nat) :
    Found.ofPath plainKind (p, stop) = some ⟨plainKind p, p, stop⟩ := by
  rw [Found.ofPath, if_neg]
  rw [Bool.and_eq_true, not_and]
  intro hp
  simp [plainKind, hp, mayNest]

/-- Braces open a placeholder if their level reads up to closing braces and a path is left. -/
theorem Ended.opened {o : Option (Text × Level)} (hd : d + 1 < maxNesting)
    (h : Ended (d + 1) .empty v o) (start : Nat) :
    Opened d v start (o.bind fun x => x.2.path?.map fun p =>
      ⟨plainKind p, p, start + 2 + x.1.byteLength + 2⟩) := by
  cases h with
  | failed h =>
    refine .failed fun outer l houter => interior_opening_eq_none fun _ => h (l :: outer) ?_
    rw [List.length_cons, houter]
  | @closed t w i hv hi =>
    rw [Option.bind_some]
    rcases hp : i.path? with _ | p
    · refine .failed fun outer l houter => interior_opening_eq_none fun _ => ?_
      rw [hv, hi.interior_append (l :: outer) (by rw [List.length_cons, houter]),
        interior_closing_of_none _ _ _ hp]
    · have hstop : start + 2 + t.byteLength + 2 = start + i.text.byteLength := by
        have hbrace : '\x7b'.utf8Size = 1 ∧ '\x7d'.utf8Size = 1 := by decide
        simp only [hi.text_eq, Text.byteLength_cons, Text.byteLength_append, Text.byteLength_nil,
          hbrace]
        omega
      rw [Option.map_some, hstop]
      exact .closed hd hv hi hp

/-- A call that reads its path finds what the path makes of the placeholder. -/
theorem callAt_eq {start depth : Nat} (sigil : Option Kind) {found : Option (Path × Nat)}
    (hsigil : (if depth = 0 then (source.asciiAt (skipPads source (start + 2))).bind sigil?
      else none) = sigil)
    (hpath : pathAt source nested (if sigil.isSome then
        skipPads source (skipPads source (start + 2) + 1) else skipPads source (start + 2)) =
      .ok found) :
    callAt source nested start depth =
      .ok (found.bind (Found.ofPath fun p => sigil.getD (plainKind p))) := by
  subst hsigil
  rw [callAt, hpath]
  rfl

theorem append_braces (u v : Text) :
    u ++ '\x7b' :: '\x7b' :: v = u ++ ['\x7b', '\x7b'] ++ v := by
  rw [List.append_assoc]
  rfl

theorem byteLength_braces (u : Text) :
    (u ++ ['\x7b', '\x7b']).byteLength = u.byteLength + 2 := by
  rw [Text.byteLength_append]
  rfl

/-- **A call inside other placeholders finds what can be read there.** -/
theorem nests_callAt (hnested : Nests source (d + 1) nested) (hd : d + 1 < maxNesting) :
    Nests source d (callAt source nested · (d + 1)) := by
  intro u v hsource
  have hbehind := hsource.trans (append_braces u v)
  obtain ⟨o, hended, hpath⟩ := pathAt_skipPads hnested hbehind
  rw [byteLength_braces] at hpath
  refine ⟨_, callAt_eq none (if_neg (Nat.succ_ne_zero d)) hpath, ?_⟩
  have hopened := hended.opened hd u.byteLength
  cases o with
  | none => exact hopened
  | some x =>
    rw [Option.bind_some, ← byteLength_braces, ← Text.byteLength_append] at hopened
    rw [Option.bind_some]
    cases hp : x.2.path? with
    | none => rwa [hp] at hopened
    | some p =>
      rw [hp] at hopened
      show Opened d v u.byteLength
        (Found.ofPath plainKind (p, (u ++ ['\x7b', '\x7b'] ++ x.1).byteLength + 2))
      rwa [ofPath_plainKind]

/-- At the last level no braces open. -/
theorem nests_of_le {call : Nat → Except Trap (Option Found)} (h : maxNesting ≤ d + 1) :
    Nests source d fun pos => if d + 1 < maxNesting then call pos else return none := by
  intro u v _
  refine ⟨none, if_neg (Nat.not_lt.mpr h), .failed fun outer l houter => ?_⟩
  exact interior_opening_eq_none fun hopen => absurd hopen (by omega)

/-- **No call nests below the last level.** -/
theorem nests_scanAt {levels : Nat} (h : maxNesting ≤ d + 1 + levels) :
    Nests source d fun pos =>
      if d + 1 < maxNesting then scanAt source levels pos (d + 1) else return none := by
  induction levels generalizing d with
  | zero => exact nests_of_le h
  | succ levels ih =>
    by_cases hd : d + 1 < maxNesting
    · simp only [hd, if_true]
      exact nests_callAt (ih (by omega)) hd
    · exact nests_of_le (Nat.not_lt.mp hd)

/-! ### The outermost placeholder -/

/-- A placeholder that begins behind `u`, with the position behind it. -/
def Found.behind (u : Text) (x : Lexeme) : Found :=
  ⟨x.kind, x.path, (u ++ x.text).byteLength⟩

/-- What the machine reads behind the lead of a placeholder is found there. -/
theorem Ended.lexeme? {x : Text} {o : Option (Text × Level)} (h : Ended 0 .empty x o)
    (u lead : Text) (kind : Path → Kind) :
    (o.bind fun y => y.2.path?.map fun p =>
        (p, (u ++ ['\x7b', '\x7b'] ++ lead ++ y.1).byteLength + 2)).bind (Found.ofPath kind) =
      ((interior [] .empty x).bind (Placeholder.lexeme? lead kind)).map (Found.behind u) := by
  cases h with
  | failed h => rw [h [] rfl]; rfl
  | @closed t w l hv h =>
    rw [interior_nil_iff.mpr ⟨t, w, hv, h⟩, Option.bind_some, Option.bind_some,
      Placeholder.lexeme?]
    rcases hp : l.path? with _ | p
    · rfl
    · have htext : l.pad ++ l.path = t := h.written_eq
      have hstop : (u ++ ['\x7b', '\x7b'] ++ lead ++ t).byteLength + 2 =
          (u ++ '\x7b' :: '\x7b' :: (lead ++ l.pad ++ l.path ++ ['\x7d', '\x7d'])).byteLength := by
        have hbrace : '\x7b'.utf8Size = 1 ∧ '\x7d'.utf8Size = 1 := by decide
        rw [List.append_assoc lead, htext]
        simp only [Text.byteLength_cons, Text.byteLength_append, Text.byteLength_nil, hbrace]
        omega
      rw [Option.map_some, Option.bind_some, Option.bind_some, Found.ofPath]
      by_cases hnest : (p.isNested && !mayNest (kind p)) = true
      · rw [if_pos hnest, if_pos hnest]
        rfl
      · rw [if_neg hnest, if_neg hnest, hstop]
        rfl

theorem isAscii_of_sigil? {c : Char} {kind : Kind} (h : sigil? c = some kind) :
    c.toNat < 0x80 := by
  unfold sigil? at h
  split_ifs at h <;> subst c <;> decide

theorem bind_sigil? (u : Text) (c : Char) (v : Text) :
    ((u ++ c :: v).asciiAt u.byteLength).bind sigil? = sigil? c := by
  rcases h : (u ++ c :: v).asciiAt u.byteLength with _ | d
  · rcases hc : sigil? c with _ | kind
    · rfl
    · have hat := Text.asciiAt_append_iff (u := u).mpr ⟨isAscii_of_sigil? hc, v, rfl⟩
      exact absurd (h.symm.trans hat) (by simp)
  · obtain ⟨-, w, hw⟩ := Text.asciiAt_append_iff.mp h
    rw [(List.cons.inj hw).1]
    rfl

/-- Behind the braces there is a character that is not blank, or no placeholder. -/
theorem placeholder?_padding {pad : Text} (hpad : Padding pad) :
    placeholder? ('\x7b' :: '\x7b' :: pad) = none := by
  simp [placeholder?, List.dropWhile_eq_nil_iff.mpr hpad]

theorem Ended.eq_none_of_padding {l : Level} {o : Option (Text × Level)} (hpad : Padding v)
    (h : Ended d l v o) : o = none := by
  cases h with
  | failed => rfl
  | closed hv => exact absurd (hpad '\x7d' (by simp [hv])) (by decide)

/-- **A call that is not nested finds the placeholder that begins there.** -/
theorem callAt_outermost (hnested : Nests source 0 nested)
    (hsource : source = u ++ '\x7b' :: '\x7b' :: v) :
    callAt source nested u.byteLength 0 =
      .ok ((placeholder? ('\x7b' :: '\x7b' :: v)).map (Found.behind u)) := by
  have hbehind := hsource.trans (append_braces u v)
  by_cases hpad : Padding v
  · -- Nothing but blanks up to the end.
    have hend : skipPads source (u.byteLength + 2) = source.byteLength := by
      have hskip := skipPads_append hpad (v := []) (by simp) (u ++ ['\x7b', '\x7b'])
      rwa [List.append_nil, ← hbehind, byteLength_braces] at hskip
    have hat : source.asciiAt source.byteLength = none := by
      rcases h : source.asciiAt source.byteLength with _ | c
      · rfl
      · exact absurd (Text.lt_of_asciiAt h) (Nat.lt_irrefl _)
    obtain ⟨o, hended, hpath⟩ := pathAt_skipPads hnested hbehind
    rw [byteLength_braces, hended.eq_none_of_padding hpad] at hpath
    rw [placeholder?_padding hpad]
    exact callAt_eq none (by rw [hend, hat]; rfl) hpath
  · obtain ⟨pad, c, w, rfl, hpad, hc⟩ := exists_padding_append hpad
    have hskip := skipPads_append hpad (v := c :: w) (by simp [hc]) (u ++ ['\x7b', '\x7b'])
    rw [← hbehind, byteLength_braces] at hskip
    rw [← List.append_assoc] at hbehind
    have hsigil : (if 0 = 0 then (source.asciiAt (skipPads source (u.byteLength + 2))).bind sigil?
        else none) = sigil? c := by
      rw [if_pos rfl, hskip, hbehind, bind_sigil?]
    rw [placeholder?_lead w hpad hc]
    rcases hk : sigil? c with _ | kind
    · -- The path begins behind the blanks, and no more are passed over.
      obtain ⟨o, hended, hpath⟩ := pathAt_skipPads hnested hbehind
      have hagain := skipPads_append padding_nil (v := c :: w) (by simp [hc])
        (u ++ ['\x7b', '\x7b'] ++ pad)
      rw [List.nil_append, ← hbehind, List.append_nil] at hagain
      rw [hagain, ← hskip] at hpath
      rw [callAt_eq _ (hsigil.trans hk) hpath]
      exact congrArg _ (hended.lexeme? u pad plainKind)
    · rw [List.append_cons] at hbehind
      obtain ⟨o, hended, hpath⟩ := pathAt_skipPads hnested hbehind
      rw [byteLength_snoc (isAscii_of_sigil? hk), ← hskip] at hpath
      rw [callAt_eq _ (hsigil.trans hk) hpath]
      have hlexeme := hended.lexeme? u (pad ++ [c]) fun _ => kind
      rw [← List.append_assoc] at hlexeme
      exact congrArg _ hlexeme

theorem scanAt_outermost (hsource : source = u ++ '\x7b' :: '\x7b' :: v) :
    scanAt source maxNesting u.byteLength 0 =
      .ok ((placeholder? ('\x7b' :: '\x7b' :: v)).map (Found.behind u)) :=
  callAt_outermost (nests_scanAt (by decide)) hsource

/-- **Every call at opening braces returns.**  It ends behind where it began, where a character
begins or the text ends, and its path nests no deeper than there are levels left. -/
theorem scanAt_returns {depth : Nat} (hdepth : depth < maxNesting)
    (hsource : source = u ++ '\x7b' :: '\x7b' :: v) :
    ∃ found, scanAt source (maxNesting - depth) u.byteLength depth = .ok found ∧
      ∀ f ∈ found, (∃ t w, source = u ++ t ++ w ∧ t ≠ [] ∧ f.stop = (u ++ t).byteLength) ∧
        f.path.depth ≤ maxNesting - 1 - depth := by
  cases depth with
  | zero =>
    refine ⟨_, scanAt_outermost hsource, fun f hf => ?_⟩
    obtain ⟨x, hx, rfl⟩ := Option.map_eq_some_iff.mp hf
    obtain ⟨hne, w, hw⟩ := placeholder?_sound _ _ hx
    exact ⟨⟨x.text, w, by rw [hsource, ← hw, List.append_assoc], hne, rfl⟩,
      depth_of_placeholder? hx⟩
  | succ d =>
    obtain ⟨levels, hlevels⟩ : ∃ levels, maxNesting - (d + 1) = levels + 1 :=
      Nat.exists_eq_add_one.mpr (by omega)
    have hnested := @nests_scanAt source (d + 1) levels (by omega)
    have hnests := nests_callAt hnested hdepth
    obtain ⟨found, hfound, hopened⟩ := hnests u v hsource
    refine ⟨found, by rw [hlevels]; exact hfound, fun f hf => ?_⟩
    cases hopened with
    | failed => cases hf
    | @closed t w i p kind _ hv hi hp =>
      obtain rfl := Option.some.inj hf
      refine ⟨⟨i.text, w, ?_, by simp [hi.text_eq], (Text.byteLength_append u i.text).symm⟩,
        hi.depth_le hp⟩
      rw [hsource, hv, hi.text_eq]
      simp

end

end ByPosition

end ConfigTemplate
