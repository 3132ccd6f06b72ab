/-
Inventories of bytes that are not text.

Extraction decodes lossily.  U+FFFD stands in no reference, of either style, so nothing that is
ill-formed has a part in one, and nothing that is well-formed is lost.

* `Context.demands_unplaced`: where a reference stands is recorded with its keys and settles
  none of them;
* `mem_keys_extract_intercalate`: so a text that is cut at characters that stand in no reference
  has the keys of its pieces;
* `mem_keys_extract_decodeLossy`: and bytes have the keys of their stretches.
-/
import ConfigTemplate.Proofs.Inventory.Buckets
import ConfigTemplate.Proofs.Inventory.Keys
import ConfigTemplate.Proofs.Text.Stretches

namespace ConfigTemplate

/-! ### References -/

/-- The recogniser of the references of this style. -/
def ReferenceStyle.recogniser : ReferenceStyle → Recogniser
  | placeholders => placeholder?
  | envVars => envVar?

theorem ReferenceStyle.references_eq (style : ReferenceStyle) (source : Text) :
    style.references source = (scan style.recogniser source).tokens := by
  cases style <;> rfl

theorem ReferenceStyle.sound_recogniser (style : ReferenceStyle) : style.recogniser.Sound := by
  cases style with
  | placeholders => exact placeholder?_sound
  | envVars => exact envVar?_sound

/-- **U+FFFD stands in no reference.** -/
theorem ReferenceStyle.stopsAt_replacement (style : ReferenceStyle) :
    style.recogniser.StopsAt '\uFFFD' := by
  cases style with
  | placeholders => exact placeholder?_stopsAt (by decide) (by decide) (by decide) (by decide)
  | envVars => exact envVar?_stopsAt (by decide) (by decide)

section

variable {recognise : Recogniser}

theorem unplaced_tokens_scanFrom (m : Mark) (s : Text) :
    (scanFrom recognise m 0 s).tokens.map Token.unplaced =
      (scan recognise s).tokens.map Token.unplaced := by
  rw [← Segments.tokens_unplaced, unplaced_scanFrom m .start, Segments.tokens_unplaced, scan]

/-- A text that is cut at characters that stop the recogniser has the references of its
pieces. -/
theorem unplaced_tokens_intercalate {c : Char} (h : recognise.Sound) (hc : recognise.StopsAt c)
    (ss : List Text) (m : Mark) :
    (scanFrom recognise m 0 (List.intercalate [c] ss)).tokens.map Token.unplaced =
      ss.flatMap fun s => (scan recognise s).tokens.map Token.unplaced := by
  induction ss generalizing m with
  | nil => rfl
  | cons s ss ih =>
    rcases ss with _ | ⟨t, ss⟩
    · simpa [List.intercalate] using unplaced_tokens_scanFrom m s
    · rw [List.intercalate_cons_cons, List.append_assoc, List.singleton_append,
        tokens_scanFrom_cut h hc m (Nat.zero_le _), List.map_append, ih,
        unplaced_tokens_scanFrom]
      rfl

end

/-! ### Keys -/

/-- The demand without the place of the reference. -/
def Demand.bare (d : Demand) : Demand :=
  { d with record := ⟨d.record.key, 1, []⟩ }

/-- **Where a reference stands settles no key.** -/
theorem Context.demands_unplaced (frames : Context) (text : Text) (t : Token) :
    frames.demands [] t.unplaced = (frames.demands text t).map Demand.bare := by
  have hkind : t.unplaced.kind = t.kind := rfl
  have hpath : t.unplaced.path = t.path := rfl
  simp only [demands, hkind, hpath]
  cases t.kind
  all_goals simp only
  case opening | inverted | closing => rfl
  all_goals
    split
    · rfl
    · cases frames.resolvePath t.path <;> rfl

theorem Context.puts_unplaced {frames : Context} {text key : Text} {t : Token} {x : Bucket} :
    frames.Puts [] t.unplaced x key ↔ frames.Puts text t x key := by
  have hadmits : ∀ d : Demand, x.admits d.bare = x.admits d := fun d => by cases x <;> rfl
  have hkey : ∀ d : Demand, d.bare.record.key = d.record.key := fun d => rfl
  rw [puts_iff, puts_iff, demands_unplaced frames text]
  simp [hadmits, hkey]

/-- An inventory without keys is empty. -/
theorem Inventory.eq_empty_of_keys {a : Inventory} (h : ∀ x key, key ∉ (a.bucket x).keys) :
    a = .empty := by
  refine ext_bucket fun x => KeySet.ext ?_
  have hkeys : (a.bucket x).keys = [] := List.eq_nil_iff_forall_not_mem.mpr (h x)
  rw [bucket_empty, KeySet.records_empty]
  exact List.map_eq_nil_iff.mp hkeys

section

variable {style : ReferenceStyle} {config : Option Tree} {x : Bucket} {key : Text}

theorem mem_keys_extract_iff_puts {source : Text} :
    key ∈ ((extract style source config).bucket x).keys ↔
      ∃ t ∈ (style.references source).map Token.unplaced,
        Context.Puts (.ofConfig config) [] t x key := by
  rw [mem_keys_bucket_extract_iff]
  constructor
  · rintro ⟨t, ht, hd⟩
    exact ⟨t.unplaced, List.mem_map_of_mem ht,
      Context.puts_unplaced.mpr (Context.puts_iff.mpr hd)⟩
  · rintro ⟨_, hmem, hputs⟩
    obtain ⟨t, ht, rfl⟩ := List.mem_map.mp hmem
    exact ⟨t, ht, Context.puts_iff.mp (Context.puts_unplaced.mp hputs)⟩

/-- **A text has the keys of its pieces**, if it is cut at characters that stand in no
reference. -/
theorem mem_keys_extract_intercalate {c : Char} (hc : style.recogniser.StopsAt c)
    (ss : List Text) :
    key ∈ ((extract style (List.intercalate [c] ss) config).bucket x).keys ↔
      ∃ s ∈ ss, key ∈ ((extract style s config).bucket x).keys := by
  have htokens := unplaced_tokens_intercalate style.sound_recogniser hc ss .start
  rw [mem_keys_extract_iff_puts, style.references_eq, scan, htokens]
  simp only [mem_keys_extract_iff_puts, style.references_eq, List.mem_flatMap]
  constructor
  · rintro ⟨t, ⟨s, hs, ht⟩, hputs⟩
    exact ⟨s, hs, t, ht, hputs⟩
  · rintro ⟨s, hs, t, ht, hputs⟩
    exact ⟨t, ⟨s, hs, ht⟩, hputs⟩

/-- **Bytes have the keys of their stretches.** -/
theorem mem_keys_extract_decodeLossy (bs : Bytes) :
    key ∈ ((extract style (Utf8.decodeLossy bs) config).bucket x).keys ↔
      ∃ s ∈ Utf8.stretches bs, key ∈ ((extract style s config).bucket x).keys := by
  rw [Utf8.decodeLossy_eq_intercalate]
  exact mem_keys_extract_intercalate style.stopsAt_replacement _

/-- Where nothing is extracted from the stretches, nothing is extracted from the bytes. -/
theorem extract_decodeLossy_eq_empty {bs : Bytes}
    (h : ∀ s ∈ Utf8.stretches bs, extract style s config = .empty) :
    extract style (Utf8.decodeLossy bs) config = .empty := by
  refine Inventory.eq_empty_of_keys fun x key hkey => ?_
  obtain ⟨s, hs, hkey⟩ := (mem_keys_extract_decodeLossy bs).mp hkey
  rw [h s hs, Inventory.bucket_empty] at hkey
  cases hkey

end

end ConfigTemplate
