/-
Where the files of a directory are.

A walk makes the path of everything that it visits out of the path of the directory and
the names below it.  Such a path leads, by these names, from where the directory is to the
one place that they belong to:

* `Disk.names_under`: the names in a path that is made so;
* `Disk.follow_append`: following a path is following its beginning and going on from
  where that leads;
* `Disk.locate_below`: so if there is no link in the directory, a path below it leads to
  the place that its names say;
* `Disk.pairwise_filesBelow`: and the files that a walk visits are in different places.

Design notes: the path of the directory itself may lead through links, each of which costs
a hop.  `follow_append` does not say how many are left, for they do not matter where there
are no more links.
-/
import Mathlib.Data.List.Nodup
import ConfigTemplate.Proofs.Disk.Shape

namespace ConfigTemplate

namespace Disk

/-! ### The names in a path -/

/-- The names between the slashes of a path. -/
def names (path : Text) : List Text :=
  (Text.pieces (· == '/') path).filter (!·.isEmpty)

theorem steps_eq (path : Text) : steps path = names path ∨ steps path = names path ++ [['.']] := by
  unfold steps
  split
  · exact .inr rfl
  · exact .inl rfl

theorem names_slash (s t : Text) : names (s ++ '/' :: t) = names s ++ names t := by
  simp only [names, Text.pieces_eq_splitOn, List.splitOn_append_cons_self, List.filter_append]

theorem names_of_isName {name : Text} (h : IsName name) : names name = [name] := by
  have hpieces : Text.pieces (· == '/') name = [name] := by
    rw [Text.pieces_eq_splitOn]
    exact List.splitOn_eq_singleton h.slash_notMem
  have hne : name.isEmpty = false := by simpa using h.ne_nil
  rw [names, hpieces, List.filter_cons_of_pos (by simp [hne]), List.filter_nil]

/-- The names in the path of an entry are those of its directory and its own. -/
theorem names_under {name : Text} (h : IsName name) (dir : Text) :
    names (under dir name) = names dir ++ [name] := by
  unfold under
  split
  · next hdir =>
    rw [hdir, names_of_isName h]
    rfl
  · split
    · next hslash =>
      obtain ⟨start, rfl⟩ := List.getLast?_eq_some_iff.mp hslash
      rw [List.append_assoc, List.singleton_append, names_slash, names_slash,
        names_of_isName h]
      simp [names]
    · rw [names_slash, names_of_isName h]

/-- The path of an entry does not end in a slash. -/
theorem steps_under {name : Text} (h : IsName name) (dir : Text) :
    steps (under dir name) = names (under dir name) := by
  obtain ⟨start, hstart⟩ : ∃ start, under dir name = start ++ name := by
    unfold under
    split
    · exact ⟨[], rfl⟩
    · split
      · exact ⟨dir, rfl⟩
      · exact ⟨dir ++ ['/'], by simp⟩
  have hlast : (under dir name).getLast? ≠ some '/' := by
    rw [hstart, List.getLast?_append_of_ne_nil _ h.ne_nil]
    exact fun hlast => h.slash_notMem (List.mem_of_getLast? hlast)
  rw [steps, if_neg hlast, names]

/-! ### The paths of a walk -/

/-- `path.Below dir ys`: a path that is made of the path of a directory and names. -/
structure Below (dir : Text) (ys : List Text) (path : Text) : Prop where
  ne_nil : ys ≠ []
  isName : ∀ y ∈ ys, IsName y
  names_eq : names path = names dir ++ ys
  steps_eq : steps path = names path

theorem below_under {dir name : Text} (h : IsName name) : Below dir [name] (under dir name) where
  ne_nil := List.cons_ne_nil _ _
  isName := by simpa using h
  names_eq := names_under h dir
  steps_eq := steps_under h dir

theorem Below.under {dir name path : Text} {ys : List Text} (hname : IsName name)
    (h : Below (under dir name) ys path) : Below dir (name :: ys) path where
  ne_nil := List.cons_ne_nil _ _
  isName := by
    intro y hy
    rcases List.mem_cons.mp hy with rfl | hy
    · exact hname
    · exact h.isName y hy
  names_eq := by
    rw [h.names_eq, names_under hname, List.append_assoc, List.singleton_append]
  steps_eq := h.steps_eq

end Disk

namespace Item

theorem entryVisits_eq_flatMap (path relative : Text) (es : List (Text × Item)) :
    entryVisits path relative es = es.flatMap fun e =>
      ⟨Disk.under path e.1, Disk.under relative e.1, e.2.isDir⟩ ::
        e.2.visits (Disk.under path e.1) (Disk.under relative e.1) := by
  induction es with
  | nil => rfl
  | cons e es ih => rw [entryVisits, ih, List.flatMap_cons]

theorem visits_dir (path relative : Text) (es : List (Text × Item)) :
    visits path relative (dir es) = es.flatMap fun e =>
      ⟨Disk.under path e.1, Disk.under relative e.1, e.2.isDir⟩ ::
        e.2.visits (Disk.under path e.1) (Disk.under relative e.1) :=
  entryVisits_eq_flatMap path relative es

/-- What a walk visits is below the directory where it begins. -/
theorem WellFormed.below_of_mem_visits {i : Item} (h : i.WellFormed) {path relative : Text}
    {v : Visit} (hv : v ∈ i.visits path relative) : ∃ ys, Disk.Below path ys v.path := by
  induction h generalizing path relative with
  | file content => simp [visits] at hv
  | link target => simp [visits] at hv
  | @dir es ordered named below ih =>
    rw [visits_dir, List.mem_flatMap] at hv
    obtain ⟨e, he, hv⟩ := hv
    have hname : Disk.IsName e.1 := named e.1 (List.mem_map_of_mem he)
    rcases List.mem_cons.mp hv with rfl | hv
    · exact ⟨[e.1], Disk.below_under hname⟩
    · obtain ⟨ys, hys⟩ := ih e he hv
      exact ⟨e.1 :: ys, hys.under hname⟩

/-- No two visits of a walk have the same names. -/
theorem WellFormed.nodup_visits {i : Item} (h : i.WellFormed) (path relative : Text) :
    ((i.visits path relative).map fun v => Disk.names v.path).Nodup := by
  induction h generalizing path relative with
  | file content => exact List.nodup_nil
  | link target => exact List.nodup_nil
  | @dir es ordered named below ih =>
    have hname : ∀ e ∈ es, Disk.IsName e.1 := fun e he => named e.1 (List.mem_map_of_mem he)
    -- Everything that is visited for an entry has the entry's name next.
    have hstart : ∀ e ∈ es, ∀ ns ∈ (Disk.names (Disk.under path e.1)) ::
        ((e.2.visits (Disk.under path e.1) (Disk.under relative e.1)).map fun v =>
          Disk.names v.path), ∃ ys, ns = Disk.names path ++ e.1 :: ys := by
      intro e he ns hns
      rcases List.mem_cons.mp hns with rfl | hns
      · exact ⟨[], Disk.names_under (hname e he) path⟩
      · obtain ⟨v, hv, rfl⟩ := List.mem_map.mp hns
        obtain ⟨ys, hys⟩ := (below e he).below_of_mem_visits hv
        exact ⟨ys, (hys.under (hname e he)).names_eq⟩
    rw [visits_dir, List.map_flatMap]
    simp only [List.map_cons]
    refine List.nodup_flatMap.mpr ⟨fun e he => ?_, ?_⟩
    · refine List.nodup_cons.mpr ⟨fun hmem => ?_, ih e he _ _⟩
      -- What is below an entry has more names than the entry.
      obtain ⟨v, hv, heq⟩ := List.mem_map.mp hmem
      obtain ⟨ys, hys⟩ := (below e he).below_of_mem_visits hv
      rw [hys.names_eq] at heq
      exact hys.ne_nil (List.append_right_eq_self.mp heq)
    · have hdistinct : es.Pairwise fun d e => d.1 ≠ e.1 := by
        have hne : (Entries.keys es).Pairwise (· ≠ ·) := by
          refine ordered.imp fun {m n} hmn heq => ?_
          rw [heq] at hmn
          exact List.lt_irrefl n (Text.le_eq_false_iff.mp hmn)
        exact List.pairwise_map.mp hne
      refine hdistinct.imp_of_mem fun {d e} hd he hne ns hnd hne' => ?_
      obtain ⟨xs, rfl⟩ := hstart d hd ns hnd
      obtain ⟨ys, heq⟩ := hstart e he _ hne'
      exact hne (List.cons.inj (List.append_cancel_left heq)).1

end Item

/-! ### Where a path leads -/

namespace Disk

variable {d : Disk}

/-- What `follow_append` says of one stretch between links, given that it holds of what
comes after a link. -/
theorem go_append (left : Nat) {hop : List Text → List Text → Except DiskError (List Text)}
    (hleft : d.follow true left = go d true hop)
    (hhop : ∀ here xs, (∃ e, ∀ ys, hop here (xs ++ ys) = .error e) ∨
      ∃ there left, ∀ ys, hop here (xs ++ ys) = d.follow true left there ys)
    (here xs : List Text) :
    (∃ e, ∀ ys, go d true hop here (xs ++ ys) = .error e) ∨
      ∃ there left, ∀ ys, go d true hop here (xs ++ ys) = d.follow true left there ys := by
  induction xs generalizing here with
  | nil => exact .inr ⟨here, left, fun ys => by rw [hleft, List.nil_append]⟩
  | cons x xs ih =>
    simp only [List.cons_append, go]
    rcases d.top.itemAt here with _ | i
    · exact .inl ⟨_, fun ys => rfl⟩
    · cases i with
      | file content => exact .inl ⟨_, fun ys => rfl⟩
      | link target => exact .inl ⟨_, fun ys => rfl⟩
      | dir es =>
        by_cases hhere : x = ['.']
        · simpa [hhere] using ih here
        · by_cases hup : x = ['.', '.']
          · simpa [hup] using ih here.dropLast
          -- An entry that is no link is gone into; a link is left to `hop`.
          · by_cases hlong : maxName < x.byteLength
            · exact .inl ⟨_, fun ys => by simp [hhere, hup, hlong]; rfl⟩
            · simp only [hhere, hup, hlong, if_false]
              rcases Entries.get? es x with _ | j
              · exact .inl ⟨_, fun ys => rfl⟩
              · cases j with
                | file content => exact ih (here ++ [x])
                | dir fs => exact ih (here ++ [x])
                | link target =>
                  by_cases hroot : target.head? = some '/'
                  · simpa [hroot] using hhop [] (steps target ++ xs)
                  · simpa [hroot] using hhop here (steps target ++ xs)

/-- **Following a path is following its beginning and going on** from where that leads,
with the hops that are left; or it fails in the beginning, whatever comes behind. -/
theorem follow_append (d : Disk) (hops : Nat) (here xs : List Text) :
    (∃ e, ∀ ys, d.follow true hops here (xs ++ ys) = .error e) ∨
      ∃ there left, ∀ ys, d.follow true hops here (xs ++ ys) = d.follow true left there ys := by
  induction hops generalizing here xs with
  | zero => exact go_append 0 rfl (fun _ _ => .inl ⟨_, fun _ => rfl⟩) here xs
  | succ hops ih => exact go_append (hops + 1) rfl ih here xs

theorem follow_nil (d : Disk) (hops : Nat) (here : List Text) :
    d.follow true hops here [] = .ok here := by
  cases hops <;> rfl

/-- The step that a slash at the end asks for leads nowhere else. -/
theorem eq_of_follow_here {hops : Nat} {here there : List Text}
    (h : d.follow true hops here [['.']] = .ok there) : here = there := by
  have hgo : ∀ hop, go d true hop here [['.']] = .ok there → here = there := by
    intro hop h
    unfold go at h
    split at h
    · simpa [go] using h
    · cases h
    · cases h
  cases hops <;> exact hgo _ h

/-- Where there are no links, names lead nowhere but where they say. -/
theorem eq_append_of_follow {i : Item} {hops : Nat} {here there ys : List Text}
    (hi : d.top.itemAt here = some i) (hfree : i.LinkFree) (hnames : ∀ y ∈ ys, IsName y)
    (h : d.follow true hops here ys = .ok there) : there = here ++ ys := by
  have hgo : ∀ hop, go d true hop here ys = .ok there → there = here ++ ys := by
    intro hop h
    clear * - hi hfree hnames h
    induction ys generalizing here i with
    | nil => rw [List.append_nil, Except.ok.inj h]
    | cons y ys ih =>
      have hy : IsName y := hnames y List.mem_cons_self
      have hys : ∀ y ∈ ys, IsName y := fun z hz => hnames z (List.mem_cons_of_mem _ hz)
      cases i with
      | file content => simp [go, hi] at h
      | link target => nomatch hfree
      | dir es =>
        simp only [go, hi, hy.ne_here, hy.ne_up, if_false] at h
        split at h
        · cases h
        · rcases hj : Entries.get? es y with _ | j
          · simp [hj] at h
          · have hitem : d.top.itemAt (here ++ [y]) = some j := by
              rw [Item.itemAt_append, hi, Option.bind_some, Item.itemAt_cons, hj]
              rfl
            have hfree := hfree.of_get? hj
            have hnext : go d true hop (here ++ [y]) ys = .ok there := by
              cases hfree <;> simpa [hj] using h
            simpa using ih hitem hfree hys hnext
  cases hops <;> exact hgo _ h

theorem follow_of_locate {path : Text} {there : List Text}
    (h : d.locate true path = .ok there) :
    d.follow true maxHops [] (steps path) = .ok there := by
  unfold locate at h
  split at h
  · cases h
  · split at h
    · cases h
    · exact h

/-- **A path below a directory without links** leads, if anywhere, to the place that its
names say. -/
theorem locate_below {i : Item} {dir path : Text} {here there ys : List Text}
    (hdir : d.locate true dir = .ok here) (hi : d.top.itemAt here = some i)
    (hfree : i.LinkFree) (hpath : Below dir ys path)
    (hthere : d.locate true path = .ok there) : there = here ++ ys := by
  have hfollow : d.follow true maxHops [] (names dir ++ ys) = .ok there := by
    rw [← hpath.names_eq, ← hpath.steps_eq]
    exact follow_of_locate hthere
  rcases follow_append d maxHops [] (names dir) with ⟨e, he⟩ | ⟨mid, left, hmid⟩
  · rw [he] at hfollow
    cases hfollow
  · -- A slash at the end of the path of the directory makes no difference.
    have hhere : mid = here := by
      have hsteps := follow_of_locate hdir
      rcases steps_eq dir with heq | heq
      · rw [heq, ← List.append_nil (names dir), hmid, follow_nil] at hsteps
        exact Except.ok.inj hsteps
      · rw [heq, hmid] at hsteps
        exact eq_of_follow_here hsteps
    rw [hmid, hhere] at hfollow
    exact eq_append_of_follow hi hfree hpath.isName hfollow

/-! ### The files of a directory -/

/-- The files that a walk through a directory visits, in its order. -/
def filesBelow (d : Disk) (dir : Text) : List Visit :=
  match d.walk dir with
  | .ok visits => visits.filter (!·.isDir)
  | .error _ => []

section

variable {dir : Text} {root : Item} (hroot : d.find dir = .ok root)

include hroot

theorem walk_of_find : d.walk dir = .ok (root.visits dir []) := by
  rw [walk, hroot]

theorem filesBelow_of_find : d.filesBelow dir = (root.visits dir []).filter (!·.isDir) := by
  rw [filesBelow, walk_of_find hroot]

/-- **The files of a directory are in different places.** -/
theorem pairwise_filesBelow (hwf : d.WellFormed) (hfree : root.LinkFree)
    (hread : ∀ v ∈ d.filesBelow dir, ∃ content, d.read v.path = .ok content) :
    (d.filesBelow dir).Pairwise fun v w => d.locate true v.path ≠ d.locate true w.path := by
  obtain ⟨here, hhere, hitem⟩ := find_eq_ok_iff.mp hroot
  have hroot_wf : root.WellFormed := hwf.of_itemAt hitem
  have hplace : ∀ v ∈ d.filesBelow dir, ∃ ys,
      d.locate true v.path = .ok (here ++ ys) ∧ names v.path = names dir ++ ys := by
    intro v hv
    obtain ⟨content, hcontent⟩ := hread v hv
    obtain ⟨there, hthere, -⟩ := read_eq_ok_iff.mp hcontent
    rw [filesBelow_of_find hroot] at hv
    obtain ⟨ys, hys⟩ := hroot_wf.below_of_mem_visits (List.mem_filter.mp hv).1
    obtain rfl := locate_below hhere hitem hfree hys hthere
    exact ⟨ys, hthere, hys.names_eq⟩
  have hnames : (d.filesBelow dir).Pairwise fun v w => names v.path ≠ names w.path := by
    rw [filesBelow_of_find hroot]
    exact (List.pairwise_map.mp (hroot_wf.nodup_visits dir [])).filter _
  refine hnames.imp_of_mem fun {v w} hv hw hne heq => ?_
  obtain ⟨xs, hxs, hvnames⟩ := hplace v hv
  obtain ⟨ys, hys, hwnames⟩ := hplace w hw
  rw [hxs, hys, Except.ok.injEq, List.append_cancel_left_eq] at heq
  exact hne (by rw [hvnames, hwnames, heq])

end

end Disk

end ConfigTemplate
