/-
Contexts that sections have pushed trees on.

A tree that is pushed on a context hides what the context has at the first segment
of a path, even where the tree lacks the rest of the path.

* `lookup_append_of_not_hides`: what is not hidden leads where it led before;
* `resolvePath_append`: so does a path with references in it, if none of them is
  hidden;
* `isSome_lookup_append_iff`: what led somewhere still does, unless the pushed trees
  shadow it: one of them has the first segment, and the innermost of those lacks the
  rest;
* `lookup_by_steps_and_frames`: lookup in a tree goes step by step, and lookup in a context
  belongs to the first tree that takes the first step.
-/
import ConfigTemplate.Proofs.Template.References

namespace ConfigTemplate

/-- `q.Inside p`: the path `q` is nested in `p`, at any depth. -/
inductive Path.Inside : Path → Path → Prop
  | direct {p q : Path} (h : Part.ref q ∈ p.parts) : Inside q p
  | deeper {p q r : Path} (h : Part.ref r ∈ p.parts) (hq : Inside q r) : Inside q p

namespace Context

/-- The first segment of a dotted path. -/
def firstSegment (path : Text) : Text :=
  (segments path).headD []

/-- Whether pushed trees settle where a dotted path leads: one of them has its first
segment, or the path is that of the innermost tree. -/
def Hides (pushed : Context) (path : Text) : Prop :=
  (∃ t ∈ pushed, has t (firstSegment path) = true) ∨ (path = current ∧ pushed ≠ [])

/-- Whether a dotted path leads nowhere because of pushed trees: the innermost of
them that has its first segment lacks the rest. -/
def Shadows (pushed : Context) (path : Text) : Prop :=
  path ≠ current ∧
    ∃ t, pushed.find? (has · (firstSegment path)) = some t ∧ t.lookupDotted path = none

/-- Whether pushed trees hide a reference nested in a path, so that the path may stand
for another dotted path than before. -/
def HidesNested (pushed frames : Context) (p : Path) : Prop :=
  ∃ q : Path, q.Inside p ∧ ∃ key, frames.resolvePath q = .ok key ∧ Hides pushed key

theorem HidesNested.of_ref {pushed frames : Context} {p q : Path} (hq : .ref q ∈ p.parts)
    (h : HidesNested pushed frames q) : HidesNested pushed frames p := by
  obtain ⟨r, hr, hhides⟩ := h
  exact ⟨r, .deeper hq hr, hhides⟩

/-! ### Lookup -/

theorem segments_eq_cons (path : Text) :
    ∃ ks, segments path = firstSegment path :: ks := by
  obtain ⟨k, ks, h⟩ := List.exists_cons_of_ne_nil (Text.pieces_ne_nil (· == '.') path)
  have hs : segments path = k :: ks := h
  exact ⟨ks, by rw [firstSegment, hs]; rfl⟩

/-- A dotted path belongs to the innermost tree that has its first segment. -/
theorem lookup_of_ne_current (frames : Context) {path : Text} (h : path ≠ current) :
    frames.lookup path =
      (frames.find? (has · (firstSegment path))).bind (·.lookupDotted path) := by
  obtain ⟨ks, hs⟩ := segments_eq_cons path
  rw [lookup, if_neg h]
  simp only [hs, Tree.lookupDotted]

theorem lookup_append (pushed frames : Context) {path : Text} (h : path ≠ current) :
    lookup (pushed ++ frames) path =
      match pushed.find? (has · (firstSegment path)) with
      | some t => t.lookupDotted path
      | none => frames.lookup path := by
  rw [lookup_of_ne_current _ h, lookup_of_ne_current _ h, List.find?_append]
  rcases pushed.find? (has · (firstSegment path)) with _ | t <;> rfl

/-- What is not hidden leads where it led before. -/
theorem lookup_append_of_not_hides {pushed : Context} {path : Text} (h : ¬ Hides pushed path)
    (frames : Context) : lookup (pushed ++ frames) path = frames.lookup path := by
  unfold Hides at h
  rw [not_or] at h
  obtain ⟨hfirst, hcurrent⟩ := h
  by_cases hp : path = current
  · -- The path of the innermost tree is only left alone if no tree was pushed.
    rcases pushed with _ | ⟨t, pushed⟩
    · rfl
    · exact absurd ⟨hp, List.cons_ne_nil t pushed⟩ hcurrent
  · have hnone : pushed.find? (has · (firstSegment path)) = none :=
      List.find?_eq_none.mpr fun t ht hhas => hfirst ⟨t, ht, hhas⟩
    rw [lookup_append _ _ hp, hnone]

/-- **What led somewhere still does, unless it is shadowed.** -/
theorem isSome_lookup_append_iff {frames : Context} {path : Text}
    (h : (frames.lookup path).isSome = true) (pushed : Context) :
    (lookup (pushed ++ frames) path).isSome = true ↔ ¬ Shadows pushed path := by
  by_cases hp : path = current
  · -- There is an innermost tree whatever was pushed.
    rw [hp, lookup_current] at h ⊢
    have hshadows : ¬ Shadows pushed current := fun hs => hs.1 rfl
    refine iff_of_true ?_ hshadows
    rcases pushed with _ | ⟨t, pushed⟩
    · exact h
    · rfl
  · rw [lookup_append _ _ hp]
    unfold Shadows
    rcases hf : pushed.find? (has · (firstSegment path)) with _ | t
    · simp [h]
    · rcases hl : t.lookupDotted path with _ | u <;> simp [hp, hl]

/-! ### Paths with references in them -/

theorem splice_congr {frames frames' : Context} {parts : List Part}
    (hpath : ∀ q, .ref q ∈ parts → frames'.resolvePath q = frames.resolvePath q)
    (hfind : ∀ q, .ref q ∈ parts → ∀ key, frames.resolvePath q = .ok key →
      frames'.find key = frames.find key) :
    splice frames' parts = splice frames parts := by
  induction parts with
  | nil => rfl
  | cons part parts ih =>
    have hrest := ih (fun q hq => hpath q (List.mem_cons_of_mem _ hq))
      fun q hq => hfind q (List.mem_cons_of_mem _ hq)
    cases part with
    | text s => rw [splice, splice, hrest]
    | ref q =>
      rw [splice, splice, hrest, hpath q List.mem_cons_self]
      rcases hk : frames.resolvePath q with m | key
      · rfl
      · simp only [bind, Except.bind, hfind q List.mem_cons_self key hk]

/-- **A path stands for the same dotted path as before** if none of the references
in it is hidden. -/
theorem resolvePath_append {pushed frames : Context} {p : Path}
    (h : ¬ HidesNested pushed frames p) :
    resolvePath (pushed ++ frames) p = frames.resolvePath p := by
  induction p with
  | mk raw parts ih =>
    have hparts : splice (pushed ++ frames) parts = splice frames parts := by
      -- What is nested in a reference of the path is nested in the path.
      refine splice_congr (fun q hq => ih q hq fun hnested => h (hnested.of_ref hq)) ?_
      intro q hq key hkey
      have hvisible : ¬ Hides pushed key := fun hhides => h ⟨q, .direct hq, key, hkey, hhides⟩
      rw [find, find, lookup_append_of_not_hides hvisible]
    rw [resolvePath, resolvePath, hparts]

/-- A reference that resolves still does behind pushed trees, if they hide none of
the references in its path and do not shadow the path itself. -/
theorem exists_resolve_append_iff {pushed frames : Context} {p : Path} {key : Text} {t : Tree}
    (h : ¬ HidesNested pushed frames p) (hkey : frames.resolvePath p = .ok key)
    (ht : frames.lookup key = some t) :
    (∃ v, resolve (pushed ++ frames) p = .ok v) ↔ ¬ Shadows pushed key := by
  have hkey' : resolvePath (pushed ++ frames) p = .ok key := (resolvePath_append h).trans hkey
  have hsome : (frames.lookup key).isSome = true := by rw [ht]; rfl
  rw [← isSome_lookup_append_iff hsome pushed]
  rw [resolve_of_resolvePath hkey', Option.isSome_iff_exists]
  exact exists_congr fun v => find_eq_ok_iff

/-! ### One tree more -/

theorem lookup_firstSegment (t : Tree) (path : Text) :
    t.lookup [firstSegment path] = t.child (firstSegment path) := by
  rw [Tree.lookup_cons]
  cases t.child (firstSegment path) <;> rfl

/-- A tree without the first segment leaves the path to the trees around it. -/
theorem lookup_push_of_none {path : Text} (h : path ≠ current) {t : Tree}
    (hfirst : t.lookup [firstSegment path] = none) (frames : Context) :
    lookup (t :: frames) path = frames.lookup path := by
  rw [lookup_firstSegment] at hfirst
  have hhas : has t (firstSegment path) = false := by rw [has, hfirst]; rfl
  have hpushed := lookup_append [t] frames h
  rwa [List.find?_cons_of_neg (by simp [hhas])] at hpushed

/-- A tree with the first segment takes the path from the trees around it. -/
theorem lookup_push_of_isSome {path : Text} (h : path ≠ current) {t : Tree}
    (hfirst : (t.lookup [firstSegment path]).isSome = true) (frames : Context) :
    lookup (t :: frames) path = t.lookupDotted path := by
  rw [lookup_firstSegment] at hfirst
  have hhas : has t (firstSegment path) = true := hfirst
  have hpushed := lookup_append [t] frames h
  rwa [List.find?_cons_of_pos (by simp [hhas])] at hpushed

/-- A tree with no more than the first segment of a path. -/
def stub (path : Text) : Tree :=
  .map [(firstSegment path, .null)]

theorem isSome_lookup_stub (path : Text) :
    ((stub path).lookup [firstSegment path]).isSome = true := by
  simp [stub, Tree.child, Entries.get?]

theorem lookupDotted_stub {path : Text} (h : (segments path).tail ≠ []) :
    (stub path).lookupDotted path = none := by
  obtain ⟨ks, hs⟩ := segments_eq_cons path
  rw [hs, List.tail_cons] at h
  obtain ⟨k, ks, rfl⟩ := List.exists_cons_of_ne_nil h
  -- Nothing is below the first segment.
  simp [stub, Tree.lookupDotted, hs, Tree.child, Entries.get?]

/-- **Lookup goes by steps, and then by frames.**  In a tree, a path in two parts leads where
the second part leads from where the first does, and nowhere if either leads nowhere.  A
context of one tree has what the tree has.  A tree pushed on a context changes nothing for the
paths whose first segment it lacks; of the others it is asked alone, so that each path of
several segments, whatever it led to, can be made to lead nowhere. -/
theorem lookup_by_steps_and_frames :
    (∀ (t : Tree) (p q : List Text), t.lookup (p ++ q) = (t.lookup p).bind (·.lookup q)) ∧
    ∀ path : Text, path ≠ current →
      (∀ root : Tree, lookup [root] path = root.lookupDotted path) ∧
      (∀ (frames : Context) (t : Tree),
        (t.lookup [firstSegment path] = none →
          lookup (t :: frames) path = frames.lookup path) ∧
        ((t.lookup [firstSegment path]).isSome = true →
          lookup (t :: frames) path = t.lookupDotted path)) ∧
      ((segments path).tail ≠ [] →
        ∃ t : Tree, (t.lookup [firstSegment path]).isSome = true ∧
          ∀ frames : Context, lookup (t :: frames) path = none) := by
  refine ⟨Tree.lookup_append, fun path hpath => ⟨fun root => lookup_singleton root hpath,
    fun frames t => ⟨fun h => lookup_push_of_none hpath h frames,
      fun h => lookup_push_of_isSome hpath h frames⟩, fun hseveral => ?_⟩⟩
  refine ⟨stub path, isSome_lookup_stub path, fun frames => ?_⟩
  rw [lookup_push_of_isSome hpath (isSome_lookup_stub path), lookupDotted_stub hseveral]

/-- A configuration with a server, and an item of a list with another one. -/
def serverConfig : Tree :=
  .map [("server".toList, .map [("host".toList, .string "a".toList)]),
    ("port".toList, .string "1".toList)]

/-- An item with a server that has no host. -/
def serverItem : Tree :=
  .map [("server".toList, .string "b".toList)]

/-- The item takes the host of the server away, and leaves the port. -/
theorem lookup_serverItem :
    lookup [serverConfig] "server.host".toList = some (.string "a".toList) ∧
      lookup [serverItem, serverConfig] "server.host".toList = none ∧
      lookup [serverItem, serverConfig] "port".toList = some (.string "1".toList) := by
  obtain ⟨-, hframes⟩ := lookup_by_steps_and_frames
  obtain ⟨hroot, hhost, -⟩ := hframes "server.host".toList (by decide)
  obtain ⟨-, hport, -⟩ := hframes "port".toList (by decide)
  refine ⟨(hroot serverConfig).trans rfl, ?_, ?_⟩
  · exact ((hhost [serverConfig] serverItem).2 rfl).trans rfl
  · exact ((hport [serverConfig] serverItem).1 rfl).trans rfl

end Context

end ConfigTemplate
