/-
Inventories of texts one below the other.

The inventory of a text that is cut at a newline is that of the part above, merged with that of
the part below once its line numbers are moved.

* `demands_append_newline`: a text demands what the part above and the part below demand;
* `extract_append_newline`: so their inventories are merged;
* `Inventory.merge_assoc`, `Inventory.merge_merge_self`: merging is a union that keeps the order
  in which keys were first seen;
* `inventory_ordered_union` puts these together.
-/
import ConfigTemplate.Proofs.Inventory.Demands
import ConfigTemplate.Proofs.Reference.Lines

namespace ConfigTemplate

/-! ### Moving lines -/

/-- A record, the given number of lines further down. -/
def Record.moved (n : Nat) (r : Record) : Record :=
  { r with line := r.line + n }

theorem Record.key_comp_moved (n : Nat) : Record.key ∘ Record.moved n = Record.key := rfl

namespace KeySet

/-- The set with the records further down. -/
def moved (n : Nat) (s : KeySet) : KeySet :=
  ⟨s.records.map (Record.moved n), by
    rw [List.map_map, Record.key_comp_moved]
    exact s.distinct⟩

@[simp] theorem records_moved (n : Nat) (s : KeySet) :
    (s.moved n).records = s.records.map (Record.moved n) := rfl

@[simp] theorem keys_moved (n : Nat) (s : KeySet) : (s.moved n).keys = s.keys := by
  rw [keys, records_moved, List.map_map, Record.key_comp_moved, keys]

theorem moved_insert (n : Nat) (s : KeySet) (r : Record) :
    (s.insert r).moved n = (s.moved n).insert (r.moved n) := by
  refine ext ?_
  by_cases h : r.key ∈ s.keys
  · have hmoved : (r.moved n).key ∈ (s.moved n).keys := by rwa [keys_moved]
    rw [insert_of_mem h, insert_of_mem hmoved]
  · have hmoved : (r.moved n).key ∉ (s.moved n).keys := by rwa [keys_moved]
    rw [records_insert_of_not_mem hmoved, records_moved, records_moved,
      records_insert_of_not_mem h, List.map_append, List.map_singleton]

/-- **Moving what a set is collected from** moves the set. -/
theorem moved_collect (n : Nat) (rs : List Record) :
    (collect rs).moved n = collect (rs.map (Record.moved n)) := by
  rw [collect, collect, List.foldl_map]
  exact (List.foldl_hom (moved n) fun s r => (moved_insert n s r).symm).symm

end KeySet

namespace Inventory

/-- The inventory with its records further down. -/
def moved (n : Nat) (a : Inventory) : Inventory :=
  ⟨a.required.moved n, a.optional.moved n, a.fatal.moved n, a.warn.moved n⟩

@[simp] theorem bucket_moved (n : Nat) (a : Inventory) (x : Bucket) :
    (a.moved n).bucket x = (a.bucket x).moved n := by
  cases x <;> rfl

/-! ### Merging -/

theorem merge_empty (a : Inventory) : a.merge empty = a := rfl

theorem empty_merge (a : Inventory) : empty.merge a = a :=
  ext_bucket fun x => by rw [bucket_merge, bucket_empty, KeySet.empty_extend]

theorem merge_assoc (a b c : Inventory) : (a.merge b).merge c = a.merge (b.merge c) :=
  ext_bucket fun x => by simp only [bucket_merge, KeySet.extend_assoc]

theorem merge_self (a : Inventory) : a.merge a = a :=
  ext_bucket fun x => by rw [bucket_merge, KeySet.extend_self]

theorem merge_merge_self (a b : Inventory) : (a.merge b).merge a = a.merge b :=
  ext_bucket fun x => by simp only [bucket_merge, KeySet.extend_extend_self]

end Inventory

/-! ### Texts one below the other -/

theorem Text.lines_append_newline (a b : Text) :
    Text.lines (a ++ '\n' :: b) = a.lines ++ b.lines := by
  simp only [lines, pieces_eq_splitOn, List.splitOn_append_cons_self]

/-- A text has one more line than newlines. -/
theorem Text.length_lines (s : Text) : s.lines.length = s.newlines + 1 := by
  induction s with
  | nil => rfl
  | cons c s ih =>
    by_cases hc : c = '\n'
    · subst hc
      rw [lines, pieces_cons_cut s (by rfl), List.length_cons, ← lines, ih, newlines, newlines,
        List.count_cons_self]
    · obtain ⟨p, ps, hs⟩ := List.exists_cons_of_ne_nil (lines_ne_nil s)
      rw [hs, List.length_cons] at ih
      rw [lines, pieces_cons_keep (by simpa using hc) hs, List.length_cons, ih, newlines,
        newlines, List.count_cons_of_ne (Ne.symm (Ne.symm hc))]

/-- The demand of a reference further down. -/
def Demand.moved (n : Nat) (d : Demand) : Demand :=
  { d with record := d.record.moved n }

theorem Context.demands_onLine (frames : Context) (text : Text) (t : Token) (k n : Nat) :
    frames.demands text (t.onLine (k + n)) =
      (frames.demands text (t.onLine k)).map (Demand.moved n) := by
  have hpath : ∀ m, (t.onLine m).path = t.path := fun m => rfl
  have hline : ∀ m, (t.onLine m).line = m := fun m => rfl
  have hkind : ∀ m, (t.onLine m).kind = t.kind := fun m => rfl
  simp only [demands, hpath, hline, hkind]
  cases t.kind
  all_goals simp only
  case opening | inverted | closing => rfl
  all_goals
    split
    · rfl
    · cases frames.resolvePath t.path <;> rfl

theorem ReferenceStyle.tokens_add (style : ReferenceStyle) (s : Text) (k n : Nat) :
    style.tokens s (k + n) = (style.tokens s k).map (·.onLine (k + n)) := by
  rw [style.tokens_eq_map_references, style.tokens_eq_map_references, List.map_map]
  rfl

theorem recordsFor_map_moved (n : Nat) (x : Bucket) (ds : List Demand) :
    recordsFor x (ds.map (Demand.moved n)) = (recordsFor x ds).map (Record.moved n) := by
  have hadmits : x.admits ∘ Demand.moved n = x.admits := by
    funext d
    cases x <;> rfl
  rw [recordsFor, List.filter_map, hadmits, List.map_map, recordsFor, List.map_map]
  rfl

theorem demands_line_add (style : ReferenceStyle) (frames : Context) (s : Text) (k n : Nat) :
    (style.tokens s (k + n)).flatMap (frames.demands s) =
      ((style.tokens s k).flatMap (frames.demands s)).map (Demand.moved n) := by
  rw [style.tokens_add, List.flatMap_map, List.map_flatMap]
  refine List.flatMap_congr fun t ht => ?_
  have hline : t.onLine k = t := by
    rw [← style.line_of_mem_tokens ht]
    rfl
  rw [frames.demands_onLine, hline]

/-- **A text demands what the part above and the part below demand**, the latter further
down. -/
theorem demands_append_newline (style : ReferenceStyle) (a b : Text) (frames : Context) :
    demands style (a ++ '\n' :: b) frames =
      demands style a frames ++ (demands style b frames).map (Demand.moved a.lines.length) := by
  have hbelow : (b.lines.zipIdx (1 + a.lines.length)).flatMap (fun line =>
      (style.tokens line.1 line.2).flatMap (frames.demands line.1)) =
        (demands style b frames).map (Demand.moved a.lines.length) := by
    rw [Nat.add_comm, ← List.map_snd_add_zipIdx_eq_zipIdx, List.flatMap_map, demands,
      List.map_flatMap]
    exact List.flatMap_congr fun line _ => demands_line_add style frames line.1 line.2 _
  rw [demands, Text.lines_append_newline, List.zipIdx_append, List.flatMap_append, hbelow]
  rfl

/-- **The inventory of a text** is that of the part above, merged with that of the part
below. -/
theorem extract_append_newline (style : ReferenceStyle) (a b : Text) (config : Option Tree) :
    extract style (a ++ '\n' :: b) config =
      (extract style a config).merge ((extract style b config).moved a.lines.length) := by
  refine Inventory.ext_bucket fun x => ?_
  rw [Inventory.bucket_merge, Inventory.bucket_moved]
  simp only [bucket_extract]
  rw [demands_append_newline, KeySet.moved_collect, ← KeySet.collect_append,
    ← recordsFor_map_moved, recordsFor, recordsFor, recordsFor, List.filter_append,
    List.map_append]

/-- **Inventories are united in order.**  The inventory of a text that is cut at a newline is
that of the part above, merged with that of the part below, further down by the lines of the
part above.  Merging puts the records with other keys behind the records of the first
inventory, so that every key still leads to a record of that key.  It is associative, the empty
inventory makes no difference, and neither does what has been merged before. -/
theorem inventory_ordered_union (style : ReferenceStyle) (config : Option Tree) (a b : Text)
    (x y z : Inventory) :
    extract style (a ++ '\n' :: b) config =
      (extract style a config).merge ((extract style b config).moved (a.newlines + 1)) ∧
    (∀ k, ((x.merge y).bucket k).records =
        (x.bucket k).records ++ (y.bucket k).records.filter (·.key ∉ (x.bucket k).keys) ∧
      ((x.merge y).bucket k).keys.Nodup ∧
      ∀ key r, ((x.merge y).bucket k).get? key = some r ↔
        r ∈ ((x.merge y).bucket k).records ∧ r.key = key) ∧
    (x.merge y).merge z = x.merge (y.merge z) ∧
    x.merge .empty = x ∧ Inventory.empty.merge x = x ∧
    (x.merge y).merge x = x.merge y ∧ x.merge x = x := by
  refine ⟨?_, fun k => ⟨?_, ((x.merge y).bucket k).distinct, fun key r => ?_⟩,
    Inventory.merge_assoc x y z, Inventory.merge_empty x, Inventory.empty_merge x,
    Inventory.merge_merge_self x y, Inventory.merge_self x⟩
  · rw [extract_append_newline, Text.length_lines]
  · rw [Inventory.bucket_merge, KeySet.records_extend]
  · exact KeySet.get?_eq_some_iff

/-- The key `a` is on both lines, and keeps the first. -/
example :
    (extract .placeholders "\x7b\x7b a \x7d\x7d\n\x7b\x7b b \x7d\x7d \x7b\x7b a \x7d\x7d".toList
      none).required.records.map (fun r => (r.key, r.line)) =
        [("a".toList, 1), ("b".toList, 2)] := by
  decide +kernel

end ConfigTemplate
