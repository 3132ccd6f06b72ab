/-
The four sets of an inventory are consistent.

What a set holds at a key is the first demand for that key that belongs there, and the demands
come line by line.

* `get?_bucket_of_unfound`: fatal and warned keys are the required and optional ones that lead
  nowhere, with the same records;
* `mem_records_bucket_iff`: its records are those that stand on the first line with a token that
  puts their key there;
* `buckets_consistent` puts these together.

Design notes: the path around a missing reference is fatal as written, whether or not it could
be looked up.  It has braces in it, so that this concerns no other key.
-/
import ConfigTemplate.Proofs.Inventory.Demands
import ConfigTemplate.Proofs.Reference.Lines
import Mathlib.Data.List.Find

namespace ConfigTemplate

/-- Whether a token on the line `text` puts a key into a set, when it is the only token. -/
def Context.Puts (frames : Context) (text : Text) (t : Token) (x : Bucket) (key : Text) : Prop :=
  key ∈ ((Inventory.empty.add frames text t).bucket x).keys

/-- Whether a record stands on the first line with a token that puts its key into a set. -/
def Record.First (style : ReferenceStyle) (source : Text) (frames : Context) (x : Bucket)
    (r : Record) : Prop :=
  ∃ before after, source.lines = before ++ r.text :: after ∧ r.line = before.length + 1 ∧
    (∃ t ∈ style.tokens r.text r.line, frames.Puts r.text t x r.key) ∧
    ∀ line ∈ before.zipIdx 1, ∀ t ∈ style.tokens line.1 line.2, ¬ frames.Puts line.1 t x r.key

section

variable {style : ReferenceStyle} {source text key : Text} {frames : Context} {t : Token}
  {x y : Bucket} {r r' : Record} {d : Demand} {ds : List Demand} {config : Option Tree}

/-! ### The demands behind a set -/

theorem find?_recordsFor :
    (recordsFor x ds).find? (·.key = key) =
      (ds.find? fun d => x.admits d ∧ d.record.key = key).map Demand.record := by
  rw [recordsFor, List.find?_map, List.find?_filter]
  simp

theorem Context.puts_iff :
    frames.Puts text t x key ↔ ∃ d ∈ frames.demands text t, x.admits d ∧ d.record.key = key := by
  rw [Puts, Inventory.add_eq_foldl_take]
  exact Inventory.mem_keys_foldl_take

theorem mem_demands_iff :
    d ∈ demands style source frames ↔ ∃ line ∈ source.lines.zipIdx 1,
      ∃ t ∈ style.tokens line.1 line.2, d ∈ frames.demands line.1 t := by
  simp only [demands, List.mem_flatMap]

/-- The first demand of a kind stands on the first line with one. -/
theorem exists_line_of_find?_demands {p : Demand → Bool}
    (h : (demands style source frames).find? p = some d) :
    ∃ before line after, source.lines = before ++ line :: after ∧
      (∃ t ∈ style.tokens line (before.length + 1), d ∈ frames.demands line t) ∧
      ∀ above ∈ before.zipIdx 1, ∀ t ∈ style.tokens above.1 above.2,
        ∀ e ∈ frames.demands above.1 t, p e = false := by
  rw [demands, List.find?_flatMap] at h
  obtain ⟨front, ⟨line, n⟩, rest, hlines, hfind, hfront⟩ := List.findSome?_eq_some_iff.mp h
  -- The numbered lines are cut where the lines are.
  obtain ⟨before, _, hsource, rfl, hrest⟩ := List.zipIdx_eq_append_iff.mp hlines
  obtain ⟨_, after, rfl, hline, -⟩ := List.zipIdx_eq_cons_iff.mp hrest.symm
  obtain ⟨rfl, rfl⟩ := Prod.mk.inj hline
  obtain ⟨t, ht, hd⟩ := List.mem_flatMap.mp (List.mem_of_find?_eq_some hfind)
  refine ⟨before, _, after, hsource, ⟨t, Nat.add_comm _ _ ▸ ht, hd⟩, ?_⟩
  intro above habove u hu e he
  have hnone := List.find?_eq_none.mp (hfront above habove) e (List.mem_flatMap.mpr ⟨u, hu, he⟩)
  simpa using hnone

/-! ### What leads nowhere -/

/-- Whether a set has what is demanded of another one and not found. -/
def Bucket.Unfound (x y : Bucket) : Prop :=
  ∀ d, x.admits d = (y.admits d && !d.found)

theorem Bucket.fatal_unfound : Unfound fatal required := fun _ => rfl

theorem Bucket.warn_unfound : Unfound warn optional := fun _ => rfl

theorem keys_bucket_subset (h : x.Unfound y) :
    ((extract style source config).bucket x).keys ⊆
      ((extract style source config).bucket y).keys := by
  intro key hkey
  rw [extract_eq_foldl_take, Inventory.mem_keys_foldl_take] at hkey ⊢
  obtain ⟨d, hd, hadmits, hk⟩ := hkey
  rw [h d, Bool.and_eq_true] at hadmits
  exact ⟨d, hd, hadmits.1, hk⟩

/-- **At a key without braces** a set of what leads nowhere has what the other set has there, if
the key leads nowhere, and else nothing. -/
theorem get?_bucket_of_unfound (h : x.Unfound y) (hkey : ¬ ['\x7b', '\x7b'] <:+: key) :
    ((extract style source config).bucket x).get? key =
      if ((Context.ofConfig config).lookup key).isSome then none
      else ((extract style source config).bucket y).get? key := by
  have hfound : ∀ d ∈ demands style source (.ofConfig config), d.record.key = key →
      d.found = ((Context.ofConfig config).lookup key).isSome := by
    rintro d hd rfl
    obtain ⟨line, -, t, ht, hd⟩ := mem_demands_iff.mp hd
    exact Demand.found_eq hd (ReferenceStyle.scanned_of_mem_tokens ht) hkey
  rw [bucket_extract, bucket_extract, KeySet.get?_collect, KeySet.get?_collect,
    find?_recordsFor, find?_recordsFor]
  split
  · next hsome =>
    rw [Option.map_eq_none_iff, List.find?_eq_none]
    intro d hd hx
    obtain ⟨hadmits, hk⟩ := of_decide_eq_true hx
    rw [h d, hfound d hd hk, hsome] at hadmits
    simp at hadmits
  · next hnone =>
    refine congrArg _ (List.find?_congr fun d hd => decide_eq_decide.mpr ?_)
    rw [h d]
    exact and_congr_left fun hk => by simp [hfound d hd hk, hnone]

/-- So it has the keys that lead nowhere, with the same records. -/
theorem mem_keys_bucket_of_unfound (h : x.Unfound y) (hkey : ¬ ['\x7b', '\x7b'] <:+: key) :
    (key ∈ ((extract style source config).bucket x).keys ↔
      key ∈ ((extract style source config).bucket y).keys ∧
        (Context.ofConfig config).lookup key = none) ∧
    (key ∈ ((extract style source config).bucket x).keys →
      ∃ r, ((extract style source config).bucket x).get? key = some r ∧
        ((extract style source config).bucket y).get? key = some r) := by
  simp only [KeySet.mem_keys_iff, get?_bucket_of_unfound h hkey]
  cases (Context.ofConfig config).lookup key with
  | none => simp
  | some v => simp

/-- Without a configuration it has everything. -/
theorem bucket_of_unfound (h : x.Unfound y) :
    (extract style source none).bucket x = (extract style source none).bucket y := by
  have hadmits : ∀ d ∈ demands style source (.ofConfig none), x.admits d = y.admits d := by
    intro d hd
    obtain ⟨line, -, t, -, hd⟩ := mem_demands_iff.mp hd
    rw [h d, Demand.found_eq_false hd, Bool.not_false, Bool.and_true]
  rw [bucket_extract, bucket_extract, recordsFor, recordsFor, List.filter_congr hadmits]

/-! ### Where a key was first seen -/

/-- A record stands on the first line with a token that puts its key into the set. -/
theorem first_of_mem_records (hr : r ∈ ((extract style source config).bucket x).records) :
    r.First style source (.ofConfig config) x := by
  have hget := KeySet.get?_eq_some_iff.mpr ⟨hr, rfl⟩
  rw [bucket_extract, KeySet.get?_collect, find?_recordsFor, Option.map_eq_some_iff] at hget
  obtain ⟨d, hfind, rfl⟩ := hget
  have hadmits : x.admits d := (of_decide_eq_true (List.find?_some hfind :)).1
  obtain ⟨before, line, after, hsource, ⟨t, ht, hd⟩, hfirst⟩ := exists_line_of_find?_demands hfind
  obtain ⟨hnumber, rfl, -⟩ := Context.demands_cases hd
  rw [style.line_of_mem_tokens ht] at hnumber
  refine ⟨before, after, hsource, hnumber, ⟨t, hnumber ▸ ht, ?_⟩, fun above habove u hu hputs => ?_⟩
  · exact Context.puts_iff.mpr ⟨d, hd, hadmits, rfl⟩
  · obtain ⟨e, he, hadmits, hkey⟩ := Context.puts_iff.mp hputs
    exact of_decide_eq_false (hfirst above habove u hu e he) ⟨hadmits, hkey⟩

theorem Record.First.line_le (h : r.First style source frames x)
    (h' : r'.First style source frames x) (hkey : r.key = r'.key) : r.line ≤ r'.line := by
  obtain ⟨before, after, hsource, hline, -, hfirst⟩ := h
  obtain ⟨before', after', hsource', hline', ⟨t, ht, hputs⟩, -⟩ := h'
  rw [hline, hline']
  refine Nat.succ_le_succ (Nat.le_of_not_lt fun hlt => ?_)
  -- Otherwise the line of the second record is among those before the first one.
  have hget : before[before'.length]? = some r'.text := by
    rw [← List.getElem?_append_left hlt, ← hsource, hsource']
    simp
  have hmem : (r'.text, r'.line) ∈ before.zipIdx 1 := by
    rw [List.mk_mem_zipIdx_iff_le_and_getElem?_sub, hline', Nat.add_sub_cancel]
    exact ⟨Nat.le_add_left _ _, hget⟩
  exact hfirst _ hmem t ht (hkey ▸ hputs)

theorem Record.First.unique (h : r.First style source frames x)
    (h' : r'.First style source frames x) (hkey : r.key = r'.key) : r = r' := by
  have hline : r.line = r'.line :=
    Nat.le_antisymm (h.line_le h' hkey) (h'.line_le h hkey.symm)
  obtain ⟨before, after, hsource, hnumber, -, -⟩ := h
  obtain ⟨before', after', hsource', hnumber', -, -⟩ := h'
  have hlength : before.length = before'.length := by omega
  obtain ⟨-, hrest⟩ := List.append_inj (hsource.symm.trans hsource') hlength
  obtain ⟨htext, -⟩ := List.cons.inj hrest
  obtain ⟨key, line, text⟩ := r
  obtain ⟨key', line', text'⟩ := r'
  rw [Record.mk.injEq]
  exact ⟨hkey, hline, htext⟩

/-- **The records of a set** are those that stand on the first line with a token that puts their
key there. -/
theorem mem_records_bucket_iff :
    r ∈ ((extract style source config).bucket x).records ↔
      r.First style source (.ofConfig config) x := by
  refine ⟨first_of_mem_records, fun h => ?_⟩
  have hkey : r.key ∈ ((extract style source config).bucket x).keys := by
    obtain ⟨before, after, hsource, hline, ⟨t, ht, hputs⟩, -⟩ := h
    obtain ⟨d, hd, hx⟩ := Context.puts_iff.mp hputs
    rw [extract_eq_foldl_take, Inventory.mem_keys_foldl_take]
    refine ⟨d, mem_demands_iff.mpr ⟨(r.text, r.line), ?_, t, ht, hd⟩, hx⟩
    rw [List.mk_mem_zipIdx_iff_le_and_getElem?_sub, hline, hsource, Nat.add_sub_cancel]
    simp
  obtain ⟨r', hr', hkey'⟩ := List.mem_map.mp hkey
  rwa [h.unique (first_of_mem_records hr') hkey'.symm]

end

/-- **The four sets of an inventory are consistent.**  What is fatal is required, and what is
warned of is optional.  A key without braces is among them if and only if it leads nowhere,
and then it has the same record in both sets.  The records of a set have the first line with a
token that puts their key there, and the number of that line.  Without a configuration nothing
leads anywhere. -/
theorem buckets_consistent (style : ReferenceStyle) (source : Text) (config : Option Tree) :
    let a := extract style source config
    (a.fatal.keys ⊆ a.required.keys ∧ a.warn.keys ⊆ a.optional.keys) ∧
    (∀ key, ¬ ['\x7b', '\x7b'] <:+: key →
      ((key ∈ a.fatal.keys ↔
          key ∈ a.required.keys ∧ (Context.ofConfig config).lookup key = none) ∧
        (key ∈ a.fatal.keys →
          ∃ r, a.fatal.get? key = some r ∧ a.required.get? key = some r)) ∧
      ((key ∈ a.warn.keys ↔
          key ∈ a.optional.keys ∧ (Context.ofConfig config).lookup key = none) ∧
        (key ∈ a.warn.keys →
          ∃ r, a.warn.get? key = some r ∧ a.optional.get? key = some r))) ∧
    (∀ x r, r ∈ (a.bucket x).records ↔ r.First style source (.ofConfig config) x) ∧
    (config = none →
      a.fatal.records = a.required.records ∧ a.warn.records = a.optional.records) := by
  refine ⟨⟨keys_bucket_subset Bucket.fatal_unfound, keys_bucket_subset Bucket.warn_unfound⟩,
    fun key hkey => ⟨?_, ?_⟩, fun x r => mem_records_bucket_iff, ?_⟩
  · exact mem_keys_bucket_of_unfound Bucket.fatal_unfound hkey
  · exact mem_keys_bucket_of_unfound Bucket.warn_unfound hkey
  · rintro rfl
    exact ⟨congrArg KeySet.records (bucket_of_unfound Bucket.fatal_unfound),
      congrArg KeySet.records (bucket_of_unfound Bucket.warn_unfound)⟩

end ConfigTemplate
