/-
Checking a configuration before rendering a directory.

Extraction reads every file and puts what it finds together; rendering rewrites file after
file and ends at the first that fails.

* `Disk.extractList_of_find`: what extraction puts together;
* `Disk.firstFatal_needsAll`: the first fatal key of all files is that of the first file
  that has one;
* `extraction_predicts_renderDir`: so without sections, extraction says whether rendering a
  directory will succeed, and else which key and which file it will fail with.
-/
import ConfigTemplate.Proofs.Disk.Extraction
import ConfigTemplate.Proofs.Disk.Rendering
import ConfigTemplate.Proofs.Inventory.Preflight

namespace ConfigTemplate

namespace Disk

variable {d : Disk} {config : Tree}

theorem read_of_readText {path source : Text} (h : d.readText path = .ok source) :
    ∃ content, d.read path = .ok content ∧ Utf8.decode? content = some source := by
  rw [readText] at h
  rcases hread : d.read path with e | content
  · rw [hread] at h
    cases h
  · refine ⟨content, rfl, ?_⟩
    rcases hsource : Utf8.decode? content with _ | s
    · simp [hread, hsource, bind, Except.bind] at h
    · have hs : s = source := by simpa [hread, hsource, bind, Except.bind] using h
      rw [hs]

theorem rendering?_of_readText {path source : Text} (h : d.readText path = .ok source) :
    d.rendering? config path = some (render source config) := by
  obtain ⟨content, hread, hsource⟩ := read_of_readText h
  rw [rendering?_of_read hread, hsource, Option.map_some]

theorem extractFile_of_readText {path source : Text} (h : d.readText path = .ok source)
    (style : ReferenceStyle) (config : Option Tree) :
    d.extractFile style path config = .ok (extract style source config) := by
  obtain ⟨content, hread, hsource⟩ := read_of_readText h
  rw [extractFile, hread]
  simp only [Utf8.decodeLossy_eq_of_decode? hsource]

/-- What extraction finds in a file, if it can be read. -/
def needs (d : Disk) (config : Tree) (v : Visit) : Inventory :=
  match d.extractFile .placeholders v.path (some config) with
  | .ok found => found
  | .error _ => .empty

theorem needs_of_readText {v : Visit} {source : Text} (h : d.readText v.path = .ok source) :
    d.needs config v = extract .placeholders source (some config) := by
  rw [needs, extractFile_of_readText h]

theorem extractFile_eq_needs {v : Visit} (h : ∃ content, d.read v.path = .ok content) :
    d.extractFile .placeholders v.path (some config) = .ok (d.needs config v) := by
  obtain ⟨content, hread⟩ := h
  rw [needs, extractFile, hread]

/-! ### One file -/

/-- Whether a file is text without sections. -/
def Flat (d : Disk) (v : Visit) : Prop :=
  ∃ source, d.readText v.path = .ok source ∧
    ∀ t ∈ (placeholders source).tokens, t.isSection = false

instance (d : Disk) (v : Visit) : Decidable (d.Flat v) :=
  match h : d.readText v.path with
  | .ok source =>
    decidable_of_iff (∀ t ∈ (placeholders source).tokens, t.isSection = false) (by simp [Flat, h])
  | .error _ => .isFalse (by simp [Flat, h])

theorem Flat.exists_read {v : Visit} (h : d.Flat v) :
    ∃ content, d.read v.path = .ok content := by
  obtain ⟨source, hsource, -⟩ := h
  obtain ⟨content, hread, -⟩ := read_of_readText hsource
  exact ⟨content, hread⟩

/-- A file for which nothing is fatal does not fail. -/
theorem Flat.fails_eq_false {v : Visit} (h : d.Flat v)
    (hsat : (d.needs config v).isSatisfied = true) : d.fails config v = false := by
  obtain ⟨source, hsource, hsections⟩ := h
  rw [needs_of_readText hsource] at hsat
  obtain ⟨out, hout⟩ := render_of_isSatisfied hsections hsat
  rw [fails, rendering?_of_readText hsource, hout]
  rfl

/-- A file fails with the first key that is fatal for it. -/
theorem Flat.rendering?_of_firstFatal {v : Visit} {m : Missing} (h : d.Flat v)
    (hfatal : (d.needs config v).firstFatal = some m) :
    d.rendering? config v.path = some (.error (.missing m.path)) := by
  obtain ⟨source, hsource, hsections⟩ := h
  rw [needs_of_readText hsource] at hfatal
  obtain ⟨r, rs, hrecords, rfl⟩ := Inventory.firstFatal_eq_some_iff.mp hfatal
  rw [rendering?_of_readText hsource, render_of_fatal hsections hrecords]

/-! ### All files together -/

/-- What extraction finds in all files of a list. -/
def needsAll (d : Disk) (config : Tree) (vs : List Visit) : Inventory :=
  vs.foldl (fun all v => all.merge (d.needs config v)) .empty

/-- **The first fatal key of all files** is that of the first file that has one. -/
theorem firstFatal_needsAll (d : Disk) (config : Tree) (vs : List Visit) :
    (d.needsAll config vs).firstFatal = vs.findSome? fun v => (d.needs config v).firstFatal := by
  have hfold : ∀ all : Inventory,
      (vs.foldl (fun all v => all.merge (d.needs config v)) all).firstFatal =
        all.firstFatal.or (vs.findSome? fun v => (d.needs config v).firstFatal) := by
    intro all
    induction vs generalizing all with
    | nil => simp
    | cons v vs ih =>
      rw [List.foldl_cons, ih, Inventory.firstFatal_merge, Option.or_assoc, List.findSome?_cons]
      rcases (d.needs config v).firstFatal with _ | m <;> rfl
  exact hfold .empty

theorem extractList_of_find {dir : Text} {es : List (Text × Item)}
    (hroot : d.find dir = .ok (.dir es))
    (hread : ∀ v ∈ d.filesBelow dir, ∃ content, d.read v.path = .ok content) (config : Tree) :
    d.extractList .placeholders dir (some config) =
      .ok (d.needsAll config (d.filesBelow dir)) := by
  have hfound : List.Forall₂ (d.Extracts .placeholders (some config)) (d.filesBelow dir)
      ((d.filesBelow dir).map fun v => (v.relative, d.needs config v)) :=
    List.forall₂_map_right_iff.mpr <| List.forall₂_same.mpr fun v hv =>
      ⟨rfl, extractFile_eq_needs (hread v hv)⟩
  rw [extractList_of_forall₂ hroot hfound, List.foldl_map]
  rfl

section

variable {dir : Text} {es : List (Text × Item)} (hwf : d.WellFormed)
  (hroot : d.find dir = .ok (.dir es)) (hfree : (Item.dir es).LinkFree)
  (hflat : ∀ v ∈ d.filesBelow dir, d.Flat v)

include hwf hroot hfree hflat

/-- If nothing is fatal for any file, all are rendered. -/
theorem renderDir_of_none_fatal
    (hnone : ∀ v ∈ d.filesBelow dir, (d.needs config v).isSatisfied = true) :
    ∃ paths, (d.renderDir dir config {}).1 = .ok paths := by
  have hkeeps : ({} : RenderOptions).force = true ∨
      ∀ v ∈ d.filesBelow dir, d.fails config v = false :=
    .inr fun v hv => (hflat v hv).fails_eq_false (hnone v hv)
  obtain ⟨after, hrun, -⟩ := renderDir_of_keeps hwf hroot hfree
    (fun v hv => (hflat v hv).exists_read) config {} hkeeps
  exact ⟨_, by rw [hrun]⟩

/-- The first file for which something is fatal is where rendering ends. -/
theorem renderDir_of_first_fatal {before rest : List Visit} {v : Visit} {m : Missing}
    (hfiles : d.filesBelow dir = before ++ v :: rest)
    (hbefore : ∀ u ∈ before, (d.needs config u).isSatisfied = true)
    (hv : (d.needs config v).firstFatal = some m) :
    (d.renderDir dir config {}).1 = .error (.template v.path (.missing m.path)) := by
  have hfileflat : ∀ u ∈ before ++ v :: rest, d.Flat u := fun u hu => hflat u (hfiles ▸ hu)
  have hforce : ({} : RenderOptions).force = false := rfl
  obtain ⟨after, hrun, -⟩ := renderDir_of_fails hwf hroot hfree
    (fun u hu => (hflat u hu).exists_read) hforce hfiles
    (fun u hu => (hfileflat u (List.mem_append_left _ hu)).fails_eq_false (hbefore u hu))
    ((hfileflat v (by simp)).rendering?_of_firstFatal hv)
  rw [hrun]

/-- **Extraction predicts rendering.**  In a directory without links, all of whose files are
text without sections, rendering succeeds exactly if extraction from the directory finds
nothing fatal.  Else it fails with the first fatal key, in the first file for which
something is fatal. -/
theorem extraction_predicts_renderDir (config : Tree) :
    ∃ all, d.extractList .placeholders dir (some config) = .ok all ∧
      ((∃ paths, (d.renderDir dir config {}).1 = .ok paths) ↔ all.isSatisfied = true) ∧
      (all.isSatisfied = false →
        ∃ before v rest r rs, d.filesBelow dir = before ++ v :: rest ∧
          (∀ u ∈ before, ∃ found,
            d.extractFile .placeholders u.path (some config) = .ok found ∧
              found.isSatisfied = true) ∧
          (∃ found, d.extractFile .placeholders v.path (some config) = .ok found ∧
            found.isSatisfied = false) ∧
          all.fatal.records = r :: rs ∧
          (d.renderDir dir config {}).1 = .error (.template v.path (.missing r.key))) := by
  have hread : ∀ v ∈ d.filesBelow dir, ∃ content, d.read v.path = .ok content :=
    fun v hv => (hflat v hv).exists_read
  have hfirst := firstFatal_needsAll d config (d.filesBelow dir)
  refine ⟨d.needsAll config (d.filesBelow dir), extractList_of_find hroot hread config, ?_⟩
  rcases hfind : (d.filesBelow dir).findSome? fun v => (d.needs config v).firstFatal with _ | m
  · rw [hfind] at hfirst
    have hsat := Inventory.isSatisfied_iff_firstFatal.mpr hfirst
    have hok := renderDir_of_none_fatal hwf hroot hfree hflat fun v hv =>
      Inventory.isSatisfied_iff_firstFatal.mpr (List.findSome?_eq_none_iff.mp hfind v hv)
    rw [hsat]
    exact ⟨⟨fun _ => rfl, fun _ => hok⟩, fun h => by cases h⟩
  · rw [hfind] at hfirst
    obtain ⟨before, v, rest, hfiles, hv, hnone⟩ := List.findSome?_eq_some_iff.mp hfind
    obtain ⟨r, rs, hrecords, rfl⟩ := Inventory.firstFatal_eq_some_iff.mp hfirst
    have hbefore : ∀ u ∈ before, (d.needs config u).isSatisfied = true :=
      fun u hu => Inventory.isSatisfied_iff_firstFatal.mpr (hnone u hu)
    have hend := renderDir_of_first_fatal hwf hroot hfree hflat hfiles hbefore hv
    have hfound : ∀ u ∈ before ++ v :: rest,
        d.extractFile .placeholders u.path (some config) = .ok (d.needs config u) :=
      fun u hu => extractFile_eq_needs (hread u (hfiles ▸ hu))
    rw [Inventory.isSatisfied_of_firstFatal hfirst, hend]
    refine ⟨⟨fun h => ?_, fun h => by cases h⟩, fun _ => ?_⟩
    · obtain ⟨paths, hpaths⟩ := h
      cases hpaths
    · exact ⟨before, v, rest, r, rs, hfiles,
        fun u hu => ⟨_, hfound u (List.mem_append_left _ hu), hbefore u hu⟩,
        ⟨_, hfound v (by simp), Inventory.isSatisfied_of_firstFatal hv⟩, hrecords, rfl⟩

end

/-! ### A directory of flat files -/

/-- What is in the directory `t`: three files, one of them further below. -/
def flatRoot : Item :=
  .dir
    [("a".toList, .file (Utf8.encode "\x7b\x7b x \x7d\x7d".toList)),
      ("b".toList, .file (Utf8.encode "\x7b\x7b x \x7d\x7d \x7b\x7b y \x7d\x7d".toList)),
      ("sub".toList, .dir [("c".toList, .file (Utf8.encode "\x7b\x7b z \x7d\x7d".toList))])]

/-- The disk with that directory. -/
def flatDisk : Disk :=
  ⟨.dir [("t".toList, flatRoot)]⟩

/-- A configuration with these keys. -/
def flatTree (keys : List Text) : Tree :=
  .map (keys.map fun k => (k, .string k))

/-- Without a `y` and a `z`, the first of them is missing; with them, all is rendered. -/
theorem flatDisk_predicted :
    (∃ path, (flatDisk.renderDir "t".toList (flatTree ["x".toList]) {}).1 =
      .error (.template path (.missing "y".toList))) ∧
    ∃ paths, (flatDisk.renderDir "t".toList
      (flatTree ["x".toList, "y".toList, "z".toList]) {}).1 = .ok paths := by
  have hwf : flatDisk.WellFormed := by
    simp only [Disk.WellFormed, flatDisk, flatRoot, Item.wellFormed_dir_iff,
      List.forall_mem_cons, Item.wellFormed_file, List.not_mem_nil, false_implies, implies_true]
    decide
  have hfree : flatRoot.LinkFree := by simp [flatRoot, Item.linkFree_dir_iff]
  have hroot : flatDisk.find "t".toList = .ok flatRoot := rfl
  have hflat : ∀ v ∈ flatDisk.filesBelow "t".toList, flatDisk.Flat v := by decide +kernel
  constructor
  · obtain ⟨all, hall, -, hmissing⟩ :=
      extraction_predicts_renderDir hwf hroot hfree hflat (flatTree ["x".toList])
    have hfound : (flatDisk.extractList .placeholders "t".toList
        (some (flatTree ["x".toList]))).map (fun a => (a.isSatisfied, a.fatal.keys)) =
        .ok (false, ["y".toList, "z".toList]) := by
      decide +kernel
    rw [hall] at hfound
    obtain ⟨hsat, hkeys⟩ := Prod.mk.inj (Except.ok.inj hfound)
    obtain ⟨before, v, rest, r, rs, -, -, -, hrecords, hfails⟩ := hmissing hsat
    rw [KeySet.keys, hrecords] at hkeys
    have hkey : r.key = "y".toList := (List.cons.inj hkeys).1
    exact ⟨v.path, hkey ▸ hfails⟩
  · obtain ⟨all, hall, hdecides, -⟩ := extraction_predicts_renderDir hwf hroot hfree hflat
      (flatTree ["x".toList, "y".toList, "z".toList])
    have hfound : (flatDisk.extractList .placeholders "t".toList
        (some (flatTree ["x".toList, "y".toList, "z".toList]))).map Inventory.isSatisfied =
        .ok true := by
      decide +kernel
    rw [hall] at hfound
    exact hdecides.mpr (Except.ok.inj hfound)

end Disk

end ConfigTemplate
