/-
What the references of a template ask for.

A `Demand` is a key that a reference asks for, with the line it stands on.  An inventory takes
the demands of a template one after another, and sorts each of them into its sets.

* `Inventory.add_eq_foldl_take`: a reference is added by taking its demands;
* `extract_eq_foldl_take`: so an inventory is what it makes of the demands of all lines;
* `bucket_extract`: each of its sets is collected from the demands that belong there;
* `Demand.found_eq`: a demand is found where its key is, unless the key is a path around a
  missing reference.

Design notes: the four sets differ only in which demands they admit.  `Bucket` names them, so
that what is true of all of them is said once.
-/
import ConfigTemplate.Proofs.Inventory.Records
import ConfigTemplate.Proofs.Reference.Paths
import ConfigTemplate.Proofs.Template.PostOrder

namespace ConfigTemplate

/-- A key that a reference asks for. -/
structure Demand where
  /-- Whether the key has to lead somewhere, and not only may. -/
  required : Bool
  /-- Whether it does. -/
  found : Bool
  record : Record

/-- One of the sets of an inventory. -/
inductive Bucket where
  | required
  | optional
  | fatal
  | warn

/-- Whether a demand belongs into a set. -/
def Bucket.admits : Bucket → Demand → Bool
  | required, d => d.required
  | optional, d => !d.required
  | fatal, d => d.required && !d.found
  | warn, d => !d.required && !d.found

/-- The demands of a token on the line `text`, in order. -/
def Context.demands (frames : Context) (text : Text) (t : Token) : List Demand :=
  let record (key : Text) : Record := ⟨key, t.line, text⟩
  let found (key : Text) : Bool := (frames.lookup key).isSome
  match t.kind with
  | .opening | .inverted => [⟨false, found t.path.raw, record t.path.raw⟩]
  | .closing => []
  | _ =>
    if t.path.raw = current then []
    else match frames.resolvePath t.path with
      | .ok key => [⟨true, found key, record key⟩]
      | .error m => [⟨true, false, record m.path⟩, ⟨true, false, record t.path.raw⟩]

/-- The demands of a template, line by line. -/
def demands (style : ReferenceStyle) (source : Text) (frames : Context) : List Demand :=
  (source.lines.zipIdx 1).flatMap fun line =>
    (style.tokens line.1 line.2).flatMap (frames.demands line.1)

namespace Inventory

/-- The set of an inventory that a bucket names. -/
def bucket (a : Inventory) : Bucket → KeySet
  | .required => a.required
  | .optional => a.optional
  | .fatal => a.fatal
  | .warn => a.warn

theorem ext_bucket {a b : Inventory} (h : ∀ x, a.bucket x = b.bucket x) : a = b := by
  obtain ⟨required, optional, fatal, warn⟩ := a
  obtain rfl : required = b.required := h .required
  obtain rfl : optional = b.optional := h .optional
  obtain rfl : fatal = b.fatal := h .fatal
  obtain rfl : warn = b.warn := h .warn
  rfl

@[simp] theorem bucket_empty (x : Bucket) : empty.bucket x = .empty := by
  cases x <;> rfl

@[simp] theorem bucket_merge (a b : Inventory) (x : Bucket) :
    (a.merge b).bucket x = (a.bucket x).extend (b.bucket x) := by
  cases x <;> rfl

/-- Sort a demand into the sets. -/
def take (a : Inventory) (d : Demand) : Inventory :=
  if d.required then a.require d.found d.record else a.permit d.found d.record

/-- **A reference is added by taking its demands.** -/
theorem add_eq_foldl_take (frames : Context) (text : Text) (a : Inventory) (t : Token) :
    a.add frames text t = (frames.demands text t).foldl take a := by
  unfold add Context.demands
  cases hk : t.kind
  all_goals simp only
  case opening | inverted | closing => rfl
  all_goals
    split
    · rfl
    · cases frames.resolvePath t.path <;> rfl

theorem bucket_take (a : Inventory) (d : Demand) (x : Bucket) :
    (a.take d).bucket x = if x.admits d then (a.bucket x).insert d.record else a.bucket x := by
  obtain ⟨required, found, r⟩ := d
  cases x <;> cases required <;> cases found <;> rfl

/-- **Each set takes the demands that belong there**, one after another. -/
theorem bucket_foldl_take (ds : List Demand) (a : Inventory) (x : Bucket) :
    (ds.foldl take a).bucket x =
      ((ds.filter x.admits).map Demand.record).foldl KeySet.insert (a.bucket x) := by
  induction ds generalizing a with
  | nil => rfl
  | cons d ds ih =>
    rw [List.foldl_cons, ih, bucket_take]
    by_cases hd : x.admits d = true
    · rw [if_pos hd, List.filter_cons_of_pos hd, List.map_cons, List.foldl_cons]
    · rw [if_neg hd, List.filter_cons_of_neg hd]

theorem mem_keys_foldl_take {ds : List Demand} {x : Bucket} {key : Text} :
    key ∈ ((ds.foldl take empty).bucket x).keys ↔ ∃ d ∈ ds, x.admits d ∧ d.record.key = key := by
  rw [bucket_foldl_take, bucket_empty, KeySet.mem_keys_foldl_insert]
  simp [KeySet.keys, and_assoc]

end Inventory

/-- **An inventory takes the demands of all lines**, in order. -/
theorem extract_eq_foldl_take (style : ReferenceStyle) (source : Text) (config : Option Tree) :
    extract style source config =
      (demands style source (.ofConfig config)).foldl Inventory.take .empty := by
  rw [extract, demands, List.foldl_flatMap]
  refine List.foldl_ext _ _ _ fun a line _ => ?_
  rw [Inventory.addLine, List.foldl_flatMap]
  exact List.foldl_ext _ _ _ fun a t _ => Inventory.add_eq_foldl_take _ _ a t

/-- The records that a set of the inventory is collected from. -/
def recordsFor (x : Bucket) (ds : List Demand) : List Record :=
  (ds.filter x.admits).map Demand.record

/-- **Each set of an inventory is collected from the demands that belong there.** -/
theorem bucket_extract (style : ReferenceStyle) (source : Text) (config : Option Tree)
    (x : Bucket) : (extract style source config).bucket x =
      .collect (recordsFor x (demands style source (.ofConfig config))) := by
  rw [extract_eq_foldl_take, Inventory.bucket_foldl_take, Inventory.bucket_empty]
  rfl

/-! ### Where keys are found -/

section

variable {frames : Context} {text : Text} {t : Token} {d : Demand}

/-- A reference asks for its own path, for what that resolves to, or for what is missing when
it is resolved. -/
theorem Context.demands_cases (h : d ∈ frames.demands text t) :
    d.record.line = t.line ∧ d.record.text = text ∧
      (d.found = (frames.lookup d.record.key).isSome ∨
        d.found = false ∧ ∃ m, frames.resolvePath t.path = .error m ∧
          (d.record.key = m.path ∨ d.record.key = t.path.raw)) := by
  unfold demands at h
  cases hk : t.kind
  all_goals simp only [hk] at h
  case closing => cases h
  case opening | inverted =>
    obtain rfl := List.mem_singleton.mp h
    exact ⟨rfl, rfl, .inl rfl⟩
  all_goals
    split at h
    · cases h
    · cases hp : frames.resolvePath t.path with
      | ok key =>
        simp only [hp, List.mem_singleton] at h
        subst h
        exact ⟨rfl, rfl, .inl rfl⟩
      | error m =>
        simp only [hp, List.mem_cons, List.not_mem_nil, or_false] at h
        rcases h with rfl | rfl
        · exact ⟨rfl, rfl, .inr ⟨rfl, m, rfl, .inl rfl⟩⟩
        · exact ⟨rfl, rfl, .inr ⟨rfl, m, rfl, .inr rfl⟩⟩

/-- **A demand is found where its key is.**  Only a path around a missing reference is not
looked up, and that has braces in it. -/
theorem Demand.found_eq (h : d ∈ frames.demands text t) (ht : t.path.Scanned)
    (hkey : ¬ ['\x7b', '\x7b'] <:+: d.record.key) :
    d.found = (frames.lookup d.record.key).isSome := by
  obtain ⟨-, -, hfound | ⟨hfound, m, hm, hd | hd⟩⟩ := Context.demands_cases h
  · exact hfound
  · rw [hfound, hd, Context.lookup_of_resolvePath_error hm]
    rfl
  · rw [hd] at hkey
    rcases hn : t.path.isNested with _ | _
    · obtain ⟨u, hu⟩ := ht.literal_of_not_nested hn
      rw [hu, Context.resolvePath_literal] at hm
      cases hm
    · exact absurd (ht.braces_infix hn) hkey

/-- Nothing is found where there is nothing. -/
theorem Demand.found_eq_false (h : d ∈ Context.demands [] text t) : d.found = false := by
  obtain ⟨-, -, hfound | ⟨hfound, -⟩⟩ := Context.demands_cases h
  · rw [hfound, Context.lookup_empty]
    rfl
  · exact hfound

end

end ConfigTemplate
