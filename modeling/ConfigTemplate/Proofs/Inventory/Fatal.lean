/-
What an inventory counts as fatal.

Extraction resolves the references of a template one after another, as verifying
and drawing do, but it goes on after a missing value and keeps every key once.

* `firstFatal_add_reference`: one reference adds to the fatal keys the path that leads
  nowhere when it is resolved, if there is one;
* `firstFatal_extract`: so the first fatal key of a template is the first path that
  leads nowhere among its references;
* `isSatisfied_extract_iff`: and a configuration satisfies an inventory exactly if
  every reference leads somewhere.

Design notes: only the first fatal key is the same as in rendering.  Behind it an
inventory also has the path around a missing reference, as written.
-/
import ConfigTemplate.Proofs.Reference.Lines
import ConfigTemplate.Proofs.Template.References

namespace ConfigTemplate

/-- The path of the innermost tree always leads somewhere, so that extraction may
pass over it. -/
theorem missing?_current {source : Text} {t : Token} (ht : t ∈ (placeholders source).tokens)
    (hraw : t.path.raw = Context.current) (config : Tree) :
    Context.missing? [config] t.path = none := by
  -- A path with references in it has braces, and the path `.` has none.
  obtain ⟨u, hu⟩ := literal_of_mem_placeholders ht (by rw [hraw]; decide)
  have hkey : Context.resolvePath [config] t.path = .ok Context.current := by
    rw [hu] at hraw ⊢
    rw [Context.resolvePath_literal]
    exact congrArg Except.ok hraw
  have hlookup : Context.lookup [config] Context.current = some config := Context.lookup_current _
  rw [Context.missing?_eq_none_iff, Context.resolve_of_resolvePath hkey]
  exact ⟨config, Context.find_eq_ok_iff.mpr hlookup⟩

/-! ### The first fatal key -/

theorem KeySet.head?_insert (s : KeySet) (r : Record) :
    (s.insert r).records.head? = s.records.head?.or (some r) := by
  by_cases h : r.key ∈ s.keys
  · -- A set that has the key has a first record already.
    rw [insert_of_mem h]
    have hne : s.records ≠ [] := by
      intro hnil
      simp [keys, hnil] at h
    obtain ⟨x, xs, hs⟩ := List.exists_cons_of_ne_nil hne
    rw [hs]
    rfl
  · rw [records_insert_of_not_mem h, List.head?_append]
    rfl

theorem KeySet.head?_extend (s t : KeySet) :
    (s.extend t).records.head? = s.records.head?.or t.records.head? := by
  have hfold : ∀ rs : List Record,
      (rs.foldl insert s).records.head? = s.records.head?.or rs.head? := by
    intro rs
    induction rs generalizing s with
    | nil => simp
    | cons r rs ih => rw [List.foldl_cons, ih, head?_insert, Option.or_assoc]; rfl
  exact hfold t.records

namespace Inventory

/-- The first path that an inventory counts as fatal. -/
def firstFatal (a : Inventory) : Option Missing :=
  a.fatal.records.head?.map fun r => ⟨r.key⟩

theorem isSatisfied_iff {a : Inventory} : a.isSatisfied = true ↔ a.fatal.records = [] := by
  rw [isSatisfied, List.isEmpty_iff]

theorem isSatisfied_iff_firstFatal {a : Inventory} :
    a.isSatisfied = true ↔ a.firstFatal = none := by
  simp [isSatisfied, firstFatal]

theorem isSatisfied_of_firstFatal {a : Inventory} {m : Missing} (h : a.firstFatal = some m) :
    a.isSatisfied = false := by
  rw [← Bool.not_eq_true, isSatisfied_iff_firstFatal, h]
  exact Option.some_ne_none m

theorem firstFatal_eq_some_iff {a : Inventory} {m : Missing} :
    a.firstFatal = some m ↔ ∃ r rs, a.fatal.records = r :: rs ∧ m = ⟨r.key⟩ := by
  rw [firstFatal]
  rcases a.fatal.records with _ | ⟨r, rs⟩
  · simp
  · simp [eq_comm]

theorem firstFatal_require (a : Inventory) (found : Bool) (r : Record) :
    (a.require found r).firstFatal =
      a.firstFatal.or (if found then none else some ⟨r.key⟩) := by
  cases found with
  | true => simp [require, firstFatal]
  | false => simp [require, firstFatal, KeySet.head?_insert]

theorem firstFatal_permit (a : Inventory) (found : Bool) (r : Record) :
    (a.permit found r).firstFatal = a.firstFatal := rfl

/-- The first fatal path of two inventories is that of the first which has one. -/
theorem firstFatal_merge (a b : Inventory) :
    (a.merge b).firstFatal = a.firstFatal.or b.firstFatal := by
  rw [firstFatal, merge, KeySet.head?_extend, Option.map_or]
  rfl

/-- All references but the tags of sections are treated alike. -/
theorem add_reference {t : Token} (ht : t.isSection = false) (frames : Context) (text : Text)
    (a : Inventory) :
    a.add frames text t =
      if t.path.raw = Context.current then a
      else match frames.resolvePath t.path with
        | .ok key => a.require (frames.lookup key).isSome ⟨key, t.line, text⟩
        | .error m => (a.require false ⟨m.path, t.line, text⟩).require false
            ⟨t.path.raw, t.line, text⟩ := by
  unfold add
  split
  case h_4 => rfl
  all_goals
    next hk => simp [Token.isSection, hk] at ht

theorem firstFatal_add_section {t : Token} (ht : t.isSection = true) (frames : Context)
    (text : Text) (a : Inventory) : (a.add frames text t).firstFatal = a.firstFatal := by
  unfold add
  split
  case h_4 hopening hinverted hclosing => simp [Token.isSection, *] at ht
  all_goals rfl

/-- **One reference adds the path that leads nowhere** when it is resolved, if there
is one. -/
theorem firstFatal_add_reference {frames : Context} {t : Token} (ht : t.isSection = false)
    (hcurrent : t.path.raw = Context.current → frames.missing? t.path = none) (text : Text)
    (a : Inventory) :
    (a.add frames text t).firstFatal = a.firstFatal.or (frames.missing? t.path) := by
  rw [add_reference ht]
  by_cases hraw : t.path.raw = Context.current
  · rw [if_pos hraw, hcurrent hraw, Option.or_none]
  · rw [if_neg hraw]
    rcases hp : frames.resolvePath t.path with m | key
    · -- The path around the missing one comes second.
      have hmissing : frames.missing? t.path = some m := by
        simp [Context.missing?, Context.resolve_of_resolvePath_error hp]
      simp [firstFatal_require, hmissing]
    · have hmissing : frames.missing? t.path =
          if (frames.lookup key).isSome then none else some ⟨key⟩ := by
        rw [Context.missing?, Context.resolve_of_resolvePath hp, Context.find]
        rcases frames.lookup key with _ | v <;> simp
      simp only [firstFatal_require, hmissing]

theorem firstFatal_foldl {frames : Context} {ts : List Token}
    (ht : ∀ t ∈ ts, t.path.raw = Context.current → frames.missing? t.path = none)
    (text : Token → Text) (a : Inventory) :
    (ts.foldl (fun a t => a.add frames (text t) t) a).firstFatal =
      a.firstFatal.or (frames.firstMissing (ts.filter fun t => !t.isSection)) := by
  induction ts generalizing a with
  | nil => simp [Context.firstMissing]
  | cons t ts ih =>
    have hrest := ih (fun u hu => ht u (List.mem_cons_of_mem _ hu)) (a.add frames (text t) t)
    rw [List.foldl_cons, hrest]
    rcases hs : t.isSection with _ | _
    · rw [firstFatal_add_reference hs (ht t List.mem_cons_self),
        List.filter_cons_of_pos (by simp [hs]), Option.or_assoc]
      simp only [Context.firstMissing, List.findSome?_cons]
      rcases frames.missing? t.path with _ | m <;> rfl
    · rw [firstFatal_add_section hs, List.filter_cons_of_neg (by simp [hs])]

end Inventory

/-- **The first fatal key of a template** is the first path that leads nowhere among
its references, in the order of the text. -/
theorem firstFatal_extract (source : Text) (config : Tree) :
    (extract .placeholders source (some config)).firstFatal =
      Context.firstMissing [config]
        ((placeholders source).tokens.filter fun t => !t.isSection) := by
  rw [extract_eq_foldl_references]
  exact Inventory.firstFatal_foldl (fun t ht hraw => missing?_current ht hraw config) _ _

theorem isSatisfied_extract_iff {source : Text} {config : Tree} :
    (extract .placeholders source (some config)).isSatisfied = true ↔
      ∀ t ∈ (placeholders source).tokens, t.isSection = false →
        ∃ v, Context.resolve [config] t.path = .ok v := by
  rw [Inventory.isSatisfied_iff_firstFatal, firstFatal_extract,
    Context.firstMissing_eq_none_iff]
  simp [List.mem_filter]

end ConfigTemplate
