/-
Which keys an inventory has.

A set of an inventory has the keys that any single reference of the template demands there:

* `mem_required_extract_iff`: the required keys are those that some reference requires;
* `mem_optional_extract_iff`: the optional keys are the names of the sections.
-/
import ConfigTemplate.Proofs.Inventory.Demands

namespace ConfigTemplate

/-- The keys that a token makes required: none if it is the tag of a section or refers
to the innermost tree, and the path around a missing one as well. -/
def Context.requiredBy (frames : Context) (t : Token) : List Text :=
  if t.isSection || t.path.raw = current then []
  else match frames.resolvePath t.path with
    | .ok key => [key]
    | .error m => [m.path, t.path.raw]

/-- A plain reference requires what is written in it. -/
theorem Context.requiredBy_literal {t : Token} {u : Text} (hu : t.path = .literal u)
    (hs : t.isSection = false) (hraw : t.path.raw ≠ current) (frames : Context) :
    frames.requiredBy t = [t.path.raw] := by
  rw [requiredBy, hs, Bool.false_or, if_neg (by simpa using hraw), hu, resolvePath_literal]
  rfl

section

variable {frames : Context} {text key : Text} {t : Token}

theorem Context.demands_required :
    (∃ d ∈ frames.demands text t, Bucket.required.admits d ∧ d.record.key = key) ↔
      key ∈ frames.requiredBy t := by
  unfold demands requiredBy Token.isSection
  cases t.kind
  all_goals simp only
  case opening | inverted | closing => simp [Bucket.admits]
  all_goals
    by_cases hraw : t.path.raw = current
    · simp [hraw]
    · rcases frames.resolvePath t.path with m | k <;>
        simp [hraw, Bucket.admits, @eq_comm _ key]

theorem Context.demands_optional :
    (∃ d ∈ frames.demands text t, Bucket.optional.admits d ∧ d.record.key = key) ↔
      t.opens = true ∧ key = t.path.raw := by
  unfold demands Token.opens
  cases t.kind
  all_goals simp only
  case opening | inverted => simp [Bucket.admits, @eq_comm _ key]
  case closing => simp
  all_goals
    by_cases hraw : t.path.raw = current
    · simp [hraw]
    · rcases frames.resolvePath t.path with m | k <;> simp [hraw, Bucket.admits]

end

section

variable {style : ReferenceStyle} {source key : Text} {config : Option Tree}

/-- **The keys of a set** are those of the demands for it, reference by reference. -/
theorem mem_keys_bucket_extract_iff (x : Bucket) :
    key ∈ ((extract style source config).bucket x).keys ↔
      ∃ t ∈ style.references source,
        ∃ d ∈ Context.demands (.ofConfig config) (source.line t.line) t,
          x.admits d ∧ d.record.key = key := by
  simp only [extract_eq_foldl_references, Inventory.add_eq_foldl_take]
  rw [← List.foldl_flatMap, Inventory.mem_keys_foldl_take]
  constructor
  · rintro ⟨d, hd, hx⟩
    obtain ⟨t, ht, hd⟩ := List.mem_flatMap.mp hd
    exact ⟨t, ht, d, hd, hx⟩
  · rintro ⟨t, ht, d, hd, hx⟩
    exact ⟨d, List.mem_flatMap.mpr ⟨t, ht, hd⟩, hx⟩

/-- **The required keys of a template** are those that its references require. -/
theorem mem_required_extract_iff :
    key ∈ (extract style source config).required.keys ↔
      ∃ t ∈ style.references source, key ∈ Context.requiredBy (.ofConfig config) t :=
  (mem_keys_bucket_extract_iff .required).trans
    (exists_congr fun _ => and_congr_right fun _ => Context.demands_required)

/-- **The optional keys of a template** are the names of its sections. -/
theorem mem_optional_extract_iff :
    key ∈ (extract style source config).optional.keys ↔
      ∃ t ∈ style.references source, t.opens = true ∧ key = t.path.raw :=
  (mem_keys_bucket_extract_iff .optional).trans
    (exists_congr fun _ => and_congr_right fun _ => Context.demands_optional)

end

end ConfigTemplate
