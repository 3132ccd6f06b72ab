/-
References that no other reference hides.

A recogniser is *exposing* if none of its references begins inside another.

* `tokens_scanFrom_eq_occurrences`: then scanning, which passes over each reference that it
  finds, finds the references at all places of the text;
* `EnvVar.exposing`: variables are such references, for a dollar sign is no character of a name;
* `envVars_are_occurrences`: so the variables of a text are what stands behind a prefix anywhere
  in its bytes, each as long as its name goes.
-/
import ConfigTemplate.Proofs.Reference.EnvVar
import ConfigTemplate.Proofs.Reference.Pattern
import ConfigTemplate.Proofs.Reference.Spans
import ConfigTemplate.Proofs.Text.Encoding

namespace ConfigTemplate

/-! ### References at all places -/

/-- Whether none of its references begins inside another. -/
def Recogniser.Exposing (recognise : Recogniser) : Prop :=
  ∀ {l : Lexeme} {u v rest : Text}, l.text = u ++ v → u ≠ [] → v ≠ [] →
    recognise (l.text ++ rest) = some l → recognise (v ++ rest) = none

/-- The references that begin at any place of the text at `m`. -/
def occurrences (recognise : Recogniser) : (m : Mark) → Text → List Token
  | _, [] => []
  | m, c :: s =>
    (recognise (c :: s)).toList.map (·.token m) ++ occurrences recognise (m.next c) s

section

variable {recognise : Recogniser}

theorem mem_occurrences_iff {m : Mark} {s : Text} {t : Token} :
    t ∈ occurrences recognise m s ↔
      ∃ u v l, s = u ++ v ∧ v ≠ [] ∧ recognise v = some l ∧ t = l.token (m.past u) := by
  induction s generalizing m with
  | nil => simp [occurrences]
  | cons c s ih =>
    rw [occurrences, List.mem_append, ih]
    constructor
    · rintro (h | ⟨u, v, l, rfl, hv, hl, rfl⟩)
      · simp only [List.mem_map, Option.mem_toList] at h
        obtain ⟨l, hl, rfl⟩ := h
        exact ⟨[], c :: s, l, rfl, List.cons_ne_nil c s, hl, rfl⟩
      · exact ⟨c :: u, v, l, rfl, hv, hl, rfl⟩
    · rintro ⟨u, v, l, huv, hv, hl, rfl⟩
      rcases u with _ | ⟨d, u⟩
      · rw [List.nil_append] at huv
        rw [← huv] at hl
        exact .inl (by simp [hl])
      · rw [List.cons_append, List.cons.injEq] at huv
        obtain ⟨rfl, rfl⟩ := huv
        exact .inr ⟨u, v, l, rfl, hv, hl, rfl⟩

/-- The references at all places come in the order of their places. -/
theorem pairwise_start_occurrences (m : Mark) (s : Text) :
    ((occurrences recognise m s).map Token.start).Pairwise (· < ·) := by
  induction s generalizing m with
  | nil => exact List.Pairwise.nil
  | cons c s ih =>
    have hlater : ∀ t ∈ occurrences recognise (m.next c) s, m.offset < t.start := by
      intro t ht
      obtain ⟨u, v, l, -, -, -, rfl⟩ := mem_occurrences_iff.mp ht
      have hsize := c.utf8Size_pos
      simp only [Token.start, Lexeme.token, Mark.past_eq, Mark.next]
      omega
    rw [occurrences]
    cases recognise (c :: s) with
    | none => exact ih (m.next c)
    | some l =>
      refine List.pairwise_cons.mpr ⟨fun i hi => ?_, ih (m.next c)⟩
      obtain ⟨t, ht, rfl⟩ := List.mem_map.mp hi
      exact hlater t ht

/-- **Scanning finds the references at all places**, if none begins in what it passes over. -/
theorem tokens_scanFrom_eq_occurrences (hsound : recognise.Sound) (h : recognise.Exposing)
    (m : Mark) (skip : Nat) {s : Text}
    (hskip : ∀ u v, s = u ++ v → u.length < skip → v ≠ [] → recognise v = none) :
    (scanFrom recognise m skip s).tokens = occurrences recognise m s := by
  induction s generalizing m skip with
  | nil => simp [scanFrom, occurrences, Segments.tokens]
  | cons c s ih =>
    rw [occurrences]
    cases skip with
    | succ skip =>
      have hc : recognise (c :: s) = none :=
        hskip [] (c :: s) rfl (Nat.succ_pos skip) (List.cons_ne_nil c s)
      rw [scanFrom, hc, ih (m.next c) skip fun u v huv hu hv =>
        hskip (c :: u) v (by rw [huv, List.cons_append]) (Nat.succ_lt_succ hu) hv]
      rfl
    | zero =>
      rw [scanFrom]
      cases hl : recognise (c :: s) with
      | none =>
        rw [Segments.tokens_cons, ih (m.next c) 0 fun u v _ hu => absurd hu (Nat.not_lt_zero _)]
        rfl
      | some l =>
        -- What is passed over next is the rest of the reference.
        obtain ⟨hne, r, hr⟩ := hsound _ _ hl
        obtain ⟨d, t, ht⟩ := List.exists_cons_of_ne_nil hne
        rw [← hr] at hl
        rw [ht, List.cons_append, List.cons.injEq] at hr
        obtain ⟨rfl, rfl⟩ := hr
        have hrest := ih (m.next d) (l.text.length - 1) fun u v huv hu hv => by
          rw [ht, List.length_cons, Nat.add_sub_cancel] at hu
          obtain ⟨w, rfl, rfl⟩ : ∃ w, t = u ++ w ∧ v = w ++ r := by
            rcases List.append_eq_append_iff.mp huv with ⟨a, rfl, -⟩ | ⟨w, hw, hv⟩
            · rw [List.length_append] at hu
              omega
            · exact ⟨w, hw, hv⟩
          have hw : w ≠ [] := fun hw => by simp [hw] at hu
          exact h (u := d :: u) ht (List.cons_ne_nil d u) hw hl
        rw [Segments.tokens, hrest]
        rfl

end

/-! ### Variables -/

namespace EnvVar

theorem isNameChar_ascii {c : Char} (h : isNameChar c = true) : c.toNat < 0x80 := by
  simp only [isNameChar, Bool.or_eq_true, decide_eq_true_eq] at h
  rcases h with ((h | rfl) | rfl) | rfl
  · have hranges : ((decide (c.val ≥ 'A'.val ∧ c.val ≤ 'Z'.val) ||
        (c.val ≥ 'a'.val && c.val ≤ 'z'.val)) || (c.val ≥ '0'.val && c.val ≤ '9'.val)) = true := h
    simp only [Bool.or_eq_true, Bool.and_eq_true, decide_eq_true_eq, ge_iff_le,
      UInt32.le_iff_toNat_le, Char.reduceVal, UInt32.reduceToNat] at hranges
    show c.val.toNat < 0x80
    omega
  all_goals decide

/-- A byte of names: a letter, a digit, an underscore, a hyphen or a point of ASCII. -/
def isNameByte (b : UInt8) : Bool :=
  b < 0x80 && isNameChar (Char.ofNat b.toNat)

/-- Whether a reference to a variable stands behind the first `i` bytes: a prefix and a byte of
names. -/
def OccursAt (bytes : Bytes) (i : Nat) : Prop :=
  ∃ lead ∈ prefixes, ∃ b bs, bytes.drop i = Utf8.encode lead ++ b :: bs ∧ isNameByte b = true

/-- The characters of a name with points for underscores. -/
def dots (name : Text) : Text :=
  name.map fun c => if c = '_' then '.' else c

/-- `Whole bytes t`: the token is a reference to a variable, and its name goes on behind the
prefix for as long as there are bytes of names. -/
def Whole (bytes : Bytes) (t : Token) : Prop :=
  ∃ lead ∈ prefixes, ∃ name, t.text = lead ++ name ∧
    Utf8.encode name = (bytes.drop (t.start + lead.byteLength)).takeWhile isNameByte ∧
    t.kind = .envVar ∧ t.path = ⟨dots name, [.text (dots name)]⟩ ∧
    t.line = 1 + (bytes.take t.start).count 10

theorem isNameByte_ofNat {c : Char} (h : c.toNat < 0x80) :
    isNameByte (UInt8.ofNat c.toNat) = isNameChar c := by
  have hnat : (UInt8.ofNat c.toNat).toNat = c.toNat := by
    rw [UInt8.toNat_ofNat', Nat.mod_eq_of_lt (by omega)]
  have hlt : UInt8.ofNat c.toNat < 0x80 := by
    rw [UInt8.lt_iff_toNat_lt, hnat]
    exact h
  rw [isNameByte, hnat, Char.ofNat_toNat, decide_eq_true hlt, Bool.true_and]

theorem isNameByte_eq_false {b : UInt8} (h : 0x80 ≤ b) : isNameByte b = false := by
  rw [isNameByte, decide_eq_false (UInt8.not_lt.mpr h), Bool.false_and]

/-- The longest name of a text has its longest run of bytes of names. -/
theorem takeWhile_encode (s : Text) :
    (Utf8.encode s).takeWhile isNameByte = Utf8.encode (s.takeWhile isNameChar) := by
  induction s with
  | nil => rfl
  | cons c s ih =>
    by_cases hc : c.toNat < 0x80
    · rw [Utf8.encode_cons_of_lt hc, List.takeWhile_cons, List.takeWhile_cons,
        isNameByte_ofNat hc]
      split
      · rw [ih, Utf8.encode_cons_of_lt hc]
      · rfl
    · have hname : isNameChar c = false := by
        rcases h : isNameChar c with _ | _
        · rfl
        · exact absurd (isNameChar_ascii h) hc
      -- The first byte is none of a name.
      obtain ⟨b, bs, hbs⟩ := List.exists_cons_of_ne_nil (l := String.utf8EncodeChar c) (by
        rw [← List.length_pos_iff, String.length_utf8EncodeChar]
        exact c.utf8Size_pos)
      have hb : 0x80 ≤ b := Utf8.le_of_mem_utf8EncodeChar (Nat.le_of_not_lt hc) (by simp [hbs])
      rw [Utf8.encode_cons, hbs, List.cons_append,
        List.takeWhile_cons_of_neg (by simp [isNameByte_eq_false hb]),
        List.takeWhile_cons_of_neg (by simp [hname])]
      rfl

theorem mem_prefixes {lead : Text} (h : lead ∈ prefixes) :
    ∃ w, lead = '$' :: w ∧ '$' ∉ w ∧ ∀ c ∈ lead, c.toNat < 0x80 := by
  simp only [prefixes, List.mem_cons, List.not_mem_nil, or_false] at h
  rcases h with rfl | rfl
  · exact ⟨"q_".toList, rfl, by simp, by simp⟩
  · exact ⟨"quill_".toList, rfl, by simp, by simp⟩

theorem isSome_withPrefix {lead : Text} {c : Char} (hc : isNameChar c = true) (s : Text) :
    (withPrefix lead (lead ++ c :: s)).isSome = true := by
  have hlead : lead.isPrefixOf? (lead ++ c :: s) = some (c :: s) :=
    List.isPrefixOf?_eq_some_iff_append_eq.mpr rfl
  rw [withPrefix, hlead, Option.bind_some, List.takeWhile_cons_of_pos hc]
  rfl

theorem trim_dots {name : Text} (h : ∀ c ∈ name, isNameChar c = true) :
    (dots name).trim = dots name := by
  have hblank : ∀ n < 0x80, isNameChar (Char.ofNat n) = true →
      Text.isBlank (if Char.ofNat n = '_' then '.' else Char.ofNat n) = false := by
    decide
  refine Text.trim_eq_self fun d hd => ?_
  obtain ⟨c, hc, rfl⟩ := List.mem_map.mp hd
  have hname := h c hc
  have := hblank c.toNat (isNameChar_ascii hname)
  rw [Char.ofNat_toNat] at this
  exact this hname

end EnvVar

open EnvVar

theorem envVar?_eq_none {c : Char} (hc : c ≠ '$') (s : Text) : envVar? (c :: s) = none := by
  rw [envVar?, List.findSome?_eq_none_iff]
  intro lead hlead
  obtain ⟨w, rfl, -, -⟩ := mem_prefixes hlead
  simp [withPrefix, List.isPrefixOf?, Ne.symm hc]

/-- No reference to a variable begins inside another. -/
theorem envVar?_exposing : Recogniser.Exposing envVar? := by
  intro l u v rest htext hu hv hl
  obtain ⟨lead, hlead, hx⟩ := envVar?_eq_some hl
  obtain ⟨name, more, -, -, hname, -, rfl⟩ := withPrefix_eq_some_iff.mp hx
  obtain ⟨w, rfl, hw, -⟩ := mem_prefixes hlead
  obtain ⟨d, u, rfl⟩ := List.exists_cons_of_ne_nil hu
  obtain ⟨c, v, rfl⟩ := List.exists_cons_of_ne_nil hv
  -- A dollar sign stands only at the front.
  have hmem : c ∈ w ++ name := by
    have htail : w ++ name = u ++ c :: v := (List.cons.inj htext).2
    simp [htail]
  refine envVar?_eq_none ?_ _
  rintro rfl
  rcases List.mem_append.mp hmem with h | h
  · exact hw h
  · exact absurd (hname _ h) (by decide)

/-- **The bytes of a text have a reference where the text has one.** -/
theorem occursAt_iff {s : Text} {i : Nat} :
    OccursAt (Utf8.encode s) i ↔
      ∃ u v l, s = u ++ v ∧ v ≠ [] ∧ envVar? v = some l ∧ i = u.byteLength := by
  constructor
  · rintro ⟨lead, hlead, b, bs, hdrop, hb⟩
    obtain ⟨-, -, -, hascii⟩ := mem_prefixes hlead
    have hlt : b < 0x80 := UInt8.not_le.mp fun h => by simp [isNameByte_eq_false h] at hb
    obtain ⟨u, c, v, rfl, hi, hc, -⟩ := Utf8.exists_append_of_drop_encode hascii hdrop hlt
    have hname : isNameChar c = true := by
      rw [isNameByte, ← hc, Char.ofNat_toNat] at hb
      exact (Bool.and_eq_true_iff.mp hb).2
    have hsome : (envVar? (lead ++ c :: v)).isSome = true :=
      List.findSome?_isSome_iff.mpr ⟨lead, hlead, isSome_withPrefix hname v⟩
    obtain ⟨l, hl⟩ := Option.isSome_iff_exists.mp hsome
    exact ⟨u, _, l, rfl, by simp, hl, hi⟩
  · rintro ⟨u, v, l, rfl, -, hl, rfl⟩
    obtain ⟨lead, hlead, hx⟩ := envVar?_eq_some hl
    obtain ⟨name, rest, rfl, hne, hname, -, -⟩ := withPrefix_eq_some_iff.mp hx
    obtain ⟨c, name, rfl⟩ := List.exists_cons_of_ne_nil hne
    have hc := hname c List.mem_cons_self
    have hascii := isNameChar_ascii hc
    refine ⟨lead, hlead, UInt8.ofNat c.toNat, Utf8.encode (name ++ rest), ?_, ?_⟩
    · rw [Utf8.encode_append, ← Utf8.length_encode, List.drop_left, Utf8.encode_append,
        List.cons_append, Utf8.encode_cons_of_lt hascii]
    · rw [isNameByte_ofNat hascii, hc]

theorem whole_of_envVar? {u v : Text} {l : Lexeme} (hl : envVar? v = some l) :
    Whole (Utf8.encode (u ++ v)) (l.token (Mark.start.past u)) := by
  obtain ⟨lead, hlead, hx⟩ := envVar?_eq_some hl
  obtain ⟨name, rest, rfl, -, hname, hrest, rfl⟩ := withPrefix_eq_some_iff.mp hx
  have hstart : (Lexeme.token ⟨.envVar, path name, lead ++ name⟩ (Mark.start.past u)).start =
      u.byteLength := by
    simp [Token.start, Lexeme.token, Mark.past_eq, Mark.start]
  refine ⟨lead, hlead, name, rfl, ?_, rfl, ?_, ?_⟩
  · rw [hstart, ← Text.byteLength_append, ← List.append_assoc, Utf8.encode_append,
      ← Utf8.length_encode, List.drop_left, takeWhile_encode,
      List.takeWhile_append_of_pos hname, hrest, List.append_nil]
  · show Path.literal (dots name) = _
    rw [Path.literal, trim_dots hname]
  · rw [hstart, Utf8.encode_append, ← Utf8.length_encode, List.take_left,
      Utf8.count_newline_encode]
    simp [Token.line, Lexeme.token, Mark.past_eq, Mark.start]

/-- **The variables of a text are all that occur in it**, each as a whole.  The tokens are the
leftmost matches of the pattern, in increasing order and without overlap; one begins behind the
first `i` bytes if and only if a prefix and a byte of names stand there, whatever comes before;
and each has the longest name that stands there. -/
theorem envVars_are_occurrences (source : Text) :
    envVars source = scan EnvVar.preferred source ∧
    ((envVars source).tokens.map Token.start).Pairwise (· < ·) ∧
    (∀ i, i ∈ (envVars source).tokens.map Token.start ↔ OccursAt (Utf8.encode source) i) ∧
    Spans (Utf8.encode source) 0 (envVars source).tokens ∧
    ∀ t ∈ (envVars source).tokens, Whole (Utf8.encode source) t := by
  have htokens : (envVars source).tokens = occurrences envVar? .start source :=
    tokens_scanFrom_eq_occurrences envVar?_sound envVar?_exposing .start 0
      fun u v _ hu => absurd hu (Nat.not_lt_zero _)
  refine ⟨by rw [preferred_eq_envVar?, envVars], ?_, fun i => ?_, spans_scan envVar?_sound source,
    fun t ht => ?_⟩
  · rw [htokens]
    exact pairwise_start_occurrences .start source
  · rw [htokens, occursAt_iff, List.mem_map]
    constructor
    · rintro ⟨t, ht, rfl⟩
      obtain ⟨u, v, l, huv, hv, hl, rfl⟩ := mem_occurrences_iff.mp ht
      exact ⟨u, v, l, huv, hv, hl, by simp [Token.start, Lexeme.token, Mark.past_eq, Mark.start]⟩
    · rintro ⟨u, v, l, huv, hv, hl, rfl⟩
      exact ⟨l.token (Mark.start.past u), mem_occurrences_iff.mpr ⟨u, v, l, huv, hv, hl, rfl⟩,
        by simp [Token.start, Lexeme.token, Mark.past_eq, Mark.start]⟩
  · rw [htokens] at ht
    obtain ⟨u, v, l, rfl, -, hl, rfl⟩ := mem_occurrences_iff.mp ht
    exact whole_of_envVar? hl

end ConfigTemplate
