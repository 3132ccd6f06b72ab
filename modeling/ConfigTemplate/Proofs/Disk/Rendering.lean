/-
Rendering a directory.

A file is rewritten if it is text that renders; it is left as it is if it is not text, or
if it fails to render and that is forced.  Otherwise the first failure ends the work.

* `Disk.renderFile_of_renders`, `Disk.renderFile_of_keeps`, `Disk.renderFile_of_fails`: the
  outcomes for one file;
* `Disk.walk_renderVisits`: rewriting files changes nothing in what a walk visits, so that
  it does not matter that the walk goes on meanwhile;
* `Disk.renderVisits_of_keeps`: the work on files none of which ends it;
* `renderDir_exact`: what comes of the work on a directory, and what it leaves alone.

Design notes: what a file renders to is said of the disk before the work.  Files are in
different places, so rewriting one leaves open what the others render to.
-/
import Mathlib.Data.List.Pairwise
import ConfigTemplate.Disk.Template
import ConfigTemplate.Proofs.Disk.Location

namespace ConfigTemplate

namespace Disk

/-- What the template in a file renders to, if there is a file and it is text. -/
def rendering? (d : Disk) (config : Tree) (path : Text) : Option (Except Fault Text) :=
  match d.read path with
  | .ok content => (Utf8.decode? content).map (render · config)
  | .error _ => none

/-- Whether the file of a visit is text that renders. -/
def renders (d : Disk) (config : Tree) (v : Visit) : Bool :=
  (d.rendering? config v.path).any (·.isOk)

/-- Whether the file of a visit is text that does not render. -/
def fails (d : Disk) (config : Tree) (v : Visit) : Bool :=
  (d.rendering? config v.path).any (!·.isOk)

variable {d after : Disk} {config : Tree} {options : RenderOptions}

theorem renders_iff {v : Visit} :
    d.renders config v = true ↔ ∃ out, d.rendering? config v.path = some (.ok out) := by
  unfold renders
  rcases d.rendering? config v.path with _ | ⟨fault | out⟩ <;> simp [Except.isOk, Except.toBool]

theorem fails_iff {v : Visit} :
    d.fails config v = true ↔ ∃ fault, d.rendering? config v.path = some (.error fault) := by
  unfold fails
  rcases d.rendering? config v.path with _ | ⟨fault | out⟩ <;> simp [Except.isOk, Except.toBool]

theorem rendering?_of_read {path : Text} {content : Bytes} (h : d.read path = .ok content) :
    d.rendering? config path = (Utf8.decode? content).map (render · config) := by
  rw [rendering?, h]

/-! ### One file -/

section

variable {path : Text}

/-- What renders is rewritten with what it renders to. -/
theorem renderFile_of_renders (hwf : d.WellFormed) {out : Text}
    (hout : d.rendering? config path = some (.ok out)) (options : RenderOptions) :
    ∃ after, d.renderFile path config options = (.ok true, after) ∧
      Rewrites d path (finish options path out) after := by
  rcases hread : d.read path with e | content
  · simp [rendering?, hread] at hout
  · rw [rendering?_of_read hread, Option.map_eq_some_iff] at hout
    obtain ⟨source, hsource, hrender⟩ := hout
    obtain ⟨after, hwrite, hafter⟩ := rewrites_write hwf hread (finish options path out)
    refine ⟨after, ?_, hafter⟩
    simp [renderFile, hread, hsource, hrender, hwrite]

/-- The first failure to render ends the work if nothing is forced. -/
theorem renderFile_of_fails {fault : Fault} (hforce : options.force = false)
    (hfault : d.rendering? config path = some (.error fault)) :
    d.renderFile path config options = (.error (.template path fault), d) := by
  rcases hread : d.read path with e | content
  · simp [rendering?, hread] at hfault
  · rw [rendering?_of_read hread, Option.map_eq_some_iff] at hfault
    obtain ⟨source, hsource, hrender⟩ := hfault
    simp [renderFile, hread, hsource, hrender, hforce]

/-- What does not render is left as it is if that is forced or if it is not text. -/
theorem renderFile_of_keeps {v : Visit} {content : Bytes} (hread : d.read v.path = .ok content)
    (hrenders : d.renders config v = false)
    (hkeeps : options.force = true ∨ d.fails config v = false) :
    d.renderFile v.path config options = (.ok false, d) := by
  rcases hsource : Utf8.decode? content with _ | source
  · simp [renderFile, hread, hsource]
  · have hrendering : d.rendering? config v.path = some (render source config) := by
      rw [rendering?_of_read hread, hsource, Option.map_some]
    rcases hrender : render source config with fault | out
    · rw [hrender] at hrendering
      have hfails : d.fails config v = true := fails_iff.mpr ⟨fault, hrendering⟩
      have hforce : options.force = true := hkeeps.resolve_right (by simp [hfails])
      simp [renderFile, hread, hsource, hrender, hforce]
    · rw [hrender] at hrendering
      rw [renders_iff.mpr ⟨out, hrendering⟩] at hrenders
      cases hrenders

/-- Whatever comes of it, rendering a file changes nothing but what the file holds. -/
theorem shape_renderFile (hwf : d.WellFormed) (path : Text) (config : Tree)
    (options : RenderOptions) : (d.renderFile path config options).2.shape = d.shape := by
  unfold renderFile
  split
  · rfl
  · next content hread =>
    split
    · rfl
    · split
      · rfl
      · next out _ =>
        obtain ⟨after, hwrite, hafter⟩ := rewrites_write hwf hread (finish options path out)
        rw [hwrite]
        exact hafter.shape

end

/-! ### File after file -/

theorem renderVisits_cons (v : Visit) (vs : List Visit) (d : Disk) :
    renderVisits config options (v :: vs) d =
      if v.isDir then renderVisits config options vs d
      else match d.renderFile v.path config options with
        | (.error fault, after) => (.error fault, after)
        | (.ok rewritten, after) =>
          ((renderVisits config options vs after).1.map fun paths =>
            if rewritten then v.relative :: paths else paths,
          (renderVisits config options vs after).2) := rfl

theorem renderVisits_of_file {v : Visit} {rewritten : Bool} (hfile : v.isDir = false)
    (hstep : d.renderFile v.path config options = (.ok rewritten, after)) (vs : List Visit) :
    renderVisits config options (v :: vs) d =
      ((renderVisits config options vs after).1.map fun paths =>
          if rewritten then v.relative :: paths else paths,
        (renderVisits config options vs after).2) := by
  rw [renderVisits_cons, hfile, if_neg Bool.false_ne_true, hstep]

/-- Directories are passed over. -/
theorem renderVisits_files (vs : List Visit) (d : Disk) :
    renderVisits config options (vs.filter (!·.isDir)) d = renderVisits config options vs d := by
  induction vs generalizing d with
  | nil => rfl
  | cons v vs ih =>
    rcases hv : v.isDir with _ | _
    · rw [List.filter_cons_of_pos (by simp [hv]), renderVisits_cons, renderVisits_cons, hv]
      simp only [ih]
    · rw [List.filter_cons_of_neg (by simp [hv]), renderVisits_cons, hv, if_pos rfl, ih]

/-- Going on with more files is going on from where the work has come, if it has not
ended. -/
theorem renderVisits_append {vs : List Visit} {paths : List Text}
    (h : renderVisits config options vs d = (.ok paths, after)) (ws : List Visit) :
    renderVisits config options (vs ++ ws) d =
      ((renderVisits config options ws after).1.map (paths ++ ·),
        (renderVisits config options ws after).2) := by
  induction vs generalizing d paths with
  | nil =>
    obtain ⟨rfl, rfl⟩ : [] = paths ∧ d = after := by simpa [renderVisits] using h
    rw [List.nil_append]
    refine Prod.ext ?_ rfl
    rcases (renderVisits config options ws d).1 with fault | rest <;> rfl
  | cons v vs ih =>
    rw [List.cons_append, renderVisits_cons]
    rw [renderVisits_cons] at h
    split at h
    · next hdir => rw [if_pos hdir, ih h]
    · next hdir =>
      rw [if_neg hdir]
      split at h
      · cases h
      · next rewritten mid hfile =>
        obtain ⟨hpaths, hafter⟩ := Prod.mk.inj h
        rcases hvs : (renderVisits config options vs mid).1 with fault | rest
        · rw [hvs] at hpaths
          cases hpaths
        · rw [hvs] at hpaths
          have hmid : renderVisits config options vs mid = (.ok rest, after) :=
            Prod.ext hvs hafter
          rw [ih hmid]
          obtain rfl := Except.ok.inj hpaths
          refine Prod.ext ?_ rfl
          rcases (renderVisits config options ws after).1 with fault | more
          · rfl
          · cases rewritten <;> rfl

theorem shape_renderVisits (hwf : d.WellFormed) (vs : List Visit) :
    (renderVisits config options vs d).2.shape = d.shape := by
  induction vs generalizing d with
  | nil => rfl
  | cons v vs ih =>
    have hfile := shape_renderFile hwf v.path config options
    rw [renderVisits_cons]
    split
    · exact ih hwf
    · split
      · next h => rw [h] at hfile; exact hfile
      · next h =>
        rw [h] at hfile
        exact (ih (hwf.of_shape hfile)).trans hfile

/-- **However far the work has come, a walk visits the same.** -/
theorem walk_renderVisits (hwf : d.WellFormed) (vs : List Visit) (dir : Text) :
    (renderVisits config options vs d).2.walk dir = d.walk dir :=
  walk_eq_of_shape (shape_renderVisits hwf vs) dir

/-- `after` is the disk `d` with the files of some visits, all of which render, rewritten
and nothing else changed. -/
structure Rendered (config : Tree) (options : RenderOptions) (vs : List Visit)
    (d after : Disk) : Prop where
  /-- Nothing is created or removed. -/
  shape : after.shape = d.shape
  rewritten : ∀ v ∈ vs, ∃ out, d.rendering? config v.path = some (.ok out) ∧
    after.read v.path = .ok (finish options v.path out)
  /-- Every path that leads somewhere else leads to what was there. -/
  kept : ∀ path, (∀ v ∈ vs, d.locate true path ≠ d.locate true v.path) →
    after.read path = d.read path

theorem Rendered.refl (d : Disk) : Rendered config options [] d d where
  shape := rfl
  rewritten := by simp
  kept := fun _ _ => rfl

theorem Rewrites.rendering?_eq {path other : Text} {content : Bytes}
    (h : Rewrites d path content after) (hother : d.locate true other ≠ d.locate true path) :
    after.rendering? config other = d.rendering? config other := by
  rw [rendering?, rendering?, h.read_other other hother]

/-- One file rewritten and then others in other places. -/
theorem Rendered.cons {mid : Disk} {v : Visit} {vs : List Visit} {out : Text}
    (hout : d.rendering? config v.path = some (.ok out))
    (hfirst : Rewrites d v.path (finish options v.path out) mid)
    (hrest : Rendered config options vs mid after)
    (hplaces : ∀ w ∈ vs, d.locate true v.path ≠ d.locate true w.path) :
    Rendered config options (v :: vs) d after := by
  have hlocate : ∀ path, mid.locate true path = d.locate true path :=
    locate_eq_of_shape hfirst.shape true
  refine ⟨hrest.shape.trans hfirst.shape, ?_, ?_⟩
  · intro w hw
    rcases List.mem_cons.mp hw with rfl | hw
    · refine ⟨out, hout, ?_⟩
      rw [hrest.kept w.path fun u hu => by rw [hlocate, hlocate]; exact hplaces u hu]
      exact hfirst.read_self
    · obtain ⟨result, hresult, hread⟩ := hrest.rewritten w hw
      rw [hfirst.rendering?_eq (hplaces w hw).symm] at hresult
      exact ⟨result, hresult, hread⟩
  · intro path hpath
    rw [hrest.kept path fun w hw => by
      rw [hlocate, hlocate]; exact hpath w (List.mem_cons_of_mem _ hw)]
    exact hfirst.read_other path (hpath v List.mem_cons_self)

section

variable {vs : List Visit}

/-- Whether each of the files in a list is in a place of its own and can be read. -/
structure Readable (d : Disk) (vs : List Visit) : Prop where
  isFile : ∀ v ∈ vs, v.isDir = false
  read : ∀ v ∈ vs, ∃ content, d.read v.path = .ok content
  places : vs.Pairwise fun v w => d.locate true v.path ≠ d.locate true w.path

theorem Readable.tail {v : Visit} (h : Readable d (v :: vs)) : Readable d vs where
  isFile := fun w hw => h.isFile w (List.mem_cons_of_mem _ hw)
  read := fun w hw => h.read w (List.mem_cons_of_mem _ hw)
  places := (List.pairwise_cons.mp h.places).2

theorem Readable.of_append {ws : List Visit} (h : Readable d (vs ++ ws)) : Readable d vs where
  isFile := fun w hw => h.isFile w (List.mem_append_left _ hw)
  read := fun w hw => h.read w (List.mem_append_left _ hw)
  places := (List.pairwise_append.mp h.places).1

theorem Readable.rewrites {v : Visit} {content : Bytes} (h : Readable d (v :: vs))
    (hfirst : Rewrites d v.path content after) : Readable after vs where
  isFile := h.tail.isFile
  read := by
    intro w hw
    have hne := (List.pairwise_cons.mp h.places).1 w hw
    rw [hfirst.read_other w.path hne.symm]
    exact h.tail.read w hw
  places := by
    simp only [locate_eq_of_shape hfirst.shape]
    exact h.tail.places

/-- Files that do not render hold what they held. -/
theorem Rendered.kept_of_not (h : Rendered config options (vs.filter (d.renders config)) d after)
    (hvs : Readable d vs) {v : Visit} (hv : v ∈ vs) (hrenders : d.renders config v = false) :
    after.read v.path = d.read v.path := by
  refine h.kept v.path fun w hw => ?_
  rw [List.mem_filter] at hw
  have hne : v ≠ w := by
    rintro rfl
    rw [hrenders] at hw
    exact Bool.false_ne_true hw.2
  have hsymm : Std.Symm fun v w : Visit => d.locate true v.path ≠ d.locate true w.path :=
    ⟨fun _ _ hvw => hvw.symm⟩
  exact hvs.places.forall hv hw.1 hne

/-- **The work on files none of which ends it**: all that render are rewritten with what
they rendered to before the work. -/
theorem renderVisits_of_keeps (hwf : d.WellFormed) (hvs : Readable d vs)
    (hkeeps : options.force = true ∨ ∀ v ∈ vs, d.fails config v = false) :
    ∃ after, renderVisits config options vs d =
        (.ok ((vs.filter (d.renders config)).map Visit.relative), after) ∧
      Rendered config options (vs.filter (d.renders config)) d after := by
  induction vs generalizing d with
  | nil => exact ⟨d, rfl, .refl d⟩
  | cons v vs ih =>
    have hfile : v.isDir = false := hvs.isFile v List.mem_cons_self
    have hplaces := (List.pairwise_cons.mp hvs.places).1
    rcases hv : d.renders config v with _ | _
    · -- The file is left alone, and the disk is the same for the others.
      obtain ⟨content, hread⟩ := hvs.read v List.mem_cons_self
      have hstep := renderFile_of_keeps hread hv
        (hkeeps.imp_right fun h => h v List.mem_cons_self)
      obtain ⟨after, hrun, hafter⟩ := ih hwf hvs.tail
        (hkeeps.imp_right fun h w hw => h w (List.mem_cons_of_mem _ hw))
      rw [List.filter_cons_of_neg (by simp [hv])]
      refine ⟨after, ?_, hafter⟩
      rw [renderVisits_of_file hfile hstep, hrun]
      rfl
    · -- The file is rewritten, and the others are in other places.
      obtain ⟨out, hout⟩ := renders_iff.mp hv
      obtain ⟨mid, hstep, hmid⟩ := renderFile_of_renders hwf hout options
      have hsame : ∀ w ∈ vs, mid.rendering? config w.path = d.rendering? config w.path :=
        fun w hw => hmid.rendering?_eq (hplaces w hw).symm
      have hfilter : vs.filter (mid.renders config) = vs.filter (d.renders config) :=
        List.filter_congr fun w hw => by rw [renders, renders, hsame w hw]
      obtain ⟨after, hrun, hafter⟩ := ih (hwf.of_shape hmid.shape) (hvs.rewrites hmid)
        (hkeeps.imp_right fun h w hw => by
          rw [fails, hsame w hw]
          exact h w (List.mem_cons_of_mem _ hw))
      rw [hfilter] at hrun hafter
      rw [List.filter_cons_of_pos hv]
      refine ⟨after, ?_, hafter.cons hout hmid fun w hw => hplaces w (List.mem_of_mem_filter hw)⟩
      rw [renderVisits_of_file hfile hstep, hrun]
      rfl

/-- **The first file that fails ends the work** if nothing is forced. -/
theorem renderVisits_of_fails {before rest : List Visit} {v : Visit} {fault : Fault}
    (hwf : d.WellFormed) (hvs : Readable d (before ++ v :: rest))
    (hforce : options.force = false) (hbefore : ∀ u ∈ before, d.fails config u = false)
    (hfault : d.rendering? config v.path = some (.error fault)) :
    ∃ after, renderVisits config options (before ++ v :: rest) d =
        (.error (.template v.path fault), after) ∧
      Rendered config options (before.filter (d.renders config)) d after := by
  have hkeeps : options.force = true ∨ ∀ u ∈ before, d.fails config u = false := .inr hbefore
  obtain ⟨after, hrun, hafter⟩ := renderVisits_of_keeps hwf hvs.of_append hkeeps
  have hmem : v ∈ before ++ v :: rest := by simp
  have hplaces := (List.pairwise_append.mp hvs.places).2.2
  -- The files before it have left it as it was.
  have hread : after.read v.path = d.read v.path :=
    hafter.kept v.path fun u hu =>
      (hplaces u (List.mem_of_mem_filter hu) v List.mem_cons_self).symm
  have hstep := renderFile_of_fails (d := after) hforce
    (by rw [rendering?, hread]; exact hfault)
  refine ⟨after, ?_, hafter⟩
  rw [renderVisits_append hrun, renderVisits_cons, hvs.isFile v hmem, hstep]
  rfl

end

/-! ### A directory -/

section

variable {dir : Text} {root : Item} (hwf : d.WellFormed) (hroot : d.find dir = .ok root)
  (hfree : root.LinkFree)
  (hread : ∀ v ∈ d.filesBelow dir, ∃ content, d.read v.path = .ok content)

include hroot in
theorem renderDir_of_find (config : Tree) (options : RenderOptions) :
    d.renderDir dir config options = renderVisits config options (d.filesBelow dir) d := by
  rw [filesBelow_of_find hroot, renderVisits_files, renderDir, exists?, hroot]
  simp only [walk_of_find hroot]

include hwf hroot hfree hread

theorem readable_filesBelow : Readable d (d.filesBelow dir) where
  isFile := by
    intro v hv
    rw [filesBelow_of_find hroot, List.mem_filter] at hv
    simpa using hv.2
  read := hread
  places := pairwise_filesBelow hroot hwf hfree hread

theorem renderDir_of_keeps (config : Tree) (options : RenderOptions)
    (hkeeps : options.force = true ∨ ∀ v ∈ d.filesBelow dir, d.fails config v = false) :
    ∃ after, d.renderDir dir config options =
        (.ok (((d.filesBelow dir).filter (d.renders config)).map Visit.relative), after) ∧
      Rendered config options ((d.filesBelow dir).filter (d.renders config)) d after := by
  rw [renderDir_of_find hroot]
  exact renderVisits_of_keeps hwf (readable_filesBelow hwf hroot hfree hread) hkeeps

theorem renderDir_of_fails {config : Tree} {options : RenderOptions} {before rest : List Visit}
    {v : Visit} {fault : Fault} (hforce : options.force = false)
    (hfiles : d.filesBelow dir = before ++ v :: rest)
    (hbefore : ∀ u ∈ before, d.fails config u = false)
    (hfault : d.rendering? config v.path = some (.error fault)) :
    ∃ after, d.renderDir dir config options = (.error (.template v.path fault), after) ∧
      Rendered config options (before.filter (d.renders config)) d after := by
  have hreadable := readable_filesBelow hwf hroot hfree hread
  rw [renderDir_of_find hroot]
  rw [hfiles] at hreadable ⊢
  exact renderVisits_of_fails hwf hreadable hforce hbefore hfault

/-- **Rendering a directory is exact and stops cleanly.**  Of the files of a directory
without links, in the order of a walk:

* if no file fails or failing is forced, all that render are rewritten with what they
  rendered to, these are what is reported, and all others hold what they held;
* otherwise the first that fails is reported, those before it that render are rewritten,
  and it and all after it hold what they held.

Nothing is created or removed in either case, and no file elsewhere changes. -/
theorem renderDir_exact (config : Tree) (options : RenderOptions) :
    ((options.force = true ∨ ∀ v ∈ d.filesBelow dir, d.fails config v = false) →
      ∃ after, d.renderDir dir config options =
          (.ok (((d.filesBelow dir).filter (d.renders config)).map Visit.relative), after) ∧
        Rendered config options ((d.filesBelow dir).filter (d.renders config)) d after ∧
        ∀ v ∈ d.filesBelow dir, d.renders config v = false →
          after.read v.path = d.read v.path) ∧
    (options.force = false →
      ∀ before v rest fault, d.filesBelow dir = before ++ v :: rest →
        (∀ u ∈ before, d.fails config u = false) →
        d.rendering? config v.path = some (.error fault) →
        ∃ after, d.renderDir dir config options = (.error (.template v.path fault), after) ∧
          Rendered config options (before.filter (d.renders config)) d after ∧
          (∀ u ∈ before, d.renders config u = false → after.read u.path = d.read u.path) ∧
          ∀ u ∈ v :: rest, after.read u.path = d.read u.path) := by
  have hreadable := readable_filesBelow hwf hroot hfree hread
  constructor
  · intro hkeeps
    obtain ⟨after, hrun, hafter⟩ := renderDir_of_keeps hwf hroot hfree hread config options hkeeps
    exact ⟨after, hrun, hafter, fun v hv hrenders => hafter.kept_of_not hreadable hv hrenders⟩
  · intro hforce before v rest fault hfiles hbefore hfault
    obtain ⟨after, hrun, hafter⟩ :=
      renderDir_of_fails hwf hroot hfree hread hforce hfiles hbefore hfault
    rw [hfiles] at hreadable
    refine ⟨after, hrun, hafter, fun u hu hrenders =>
      hafter.kept_of_not hreadable.of_append hu hrenders, fun u hu => ?_⟩
    refine hafter.kept u.path fun w hw => ?_
    exact ((List.pairwise_append.mp hreadable.places).2.2 w (List.mem_of_mem_filter hw) u hu).symm

end

/-! ### A directory with a file that fails -/

/-- What is in the directory `t`: four files, one of them further below. -/
def confRoot : Item :=
  .dir
    [("app.json".toList, .file (Utf8.encode "\x7b\x7b a \x7d\x7d".toList)),
      ("bad".toList, .file (Utf8.encode "\x7b\x7b b \x7d\x7d".toList)),
      ("logo".toList, .file [0xff]),
      ("sub".toList, .dir [("late".toList, .file (Utf8.encode "\x7b\x7b a \x7d\x7d".toList))])]

/-- The disk with that directory. -/
def confDisk : Disk :=
  ⟨.dir [("t".toList, confRoot)]⟩

/-- The visit of a file in `t`. -/
def confVisit (relative : Text) : Visit :=
  ⟨"t/".toList ++ relative, relative, false⟩

/-- There is an `a` and no `b`. -/
def confTree : Tree :=
  .map [("a".toList, .string "[1]".toList)]

/-- The second file fails.  Unless that is forced, only the first is rewritten; the one that
is not text is left alone anyway. -/
theorem confDisk_rendered :
    (∃ after, confDisk.renderDir "t".toList confTree ⟨false, true⟩ =
        (.error (.template "t/bad".toList (.missing "b".toList)), after) ∧
      after.read "t/app.json".toList = .ok (Utf8.encode "[\n  1\n]\n".toList) ∧
      after.read "t/sub/late".toList = confDisk.read "t/sub/late".toList) ∧
    ∃ after, confDisk.renderDir "t".toList confTree ⟨true, true⟩ =
        (.ok ["app.json".toList, "sub/late".toList], after) ∧
      after.read "t/sub/late".toList = .ok (Utf8.encode "[1]".toList) ∧
      after.read "t/bad".toList = confDisk.read "t/bad".toList := by
  have hwf : confDisk.WellFormed := by
    simp only [Disk.WellFormed, confDisk, confRoot, Item.wellFormed_dir_iff,
      List.forall_mem_cons, Item.wellFormed_file, List.not_mem_nil, false_implies, implies_true]
    decide
  have hfree : confRoot.LinkFree := by simp [confRoot, Item.linkFree_dir_iff]
  have hroot : confDisk.find "t".toList = .ok confRoot := rfl
  have hread : ∀ v ∈ confDisk.filesBelow "t".toList,
      ∃ content, confDisk.read v.path = .ok content := by
    have hok : ∀ v ∈ confDisk.filesBelow "t".toList, (confDisk.read v.path).isOk = true := by
      decide +kernel
    intro v hv
    rcases hcontent : confDisk.read v.path with e | content
    · have hfails := hok v hv
      rw [hcontent] at hfails
      cases hfails
    · exact ⟨content, rfl⟩
  have hfiles : confDisk.filesBelow "t".toList =
      [confVisit "app.json".toList] ++ confVisit "bad".toList ::
        [confVisit "logo".toList, confVisit "sub/late".toList] := by
    decide +kernel
  have hbefore : [confVisit "app.json".toList].filter (confDisk.renders confTree) =
      [confVisit "app.json".toList] := by
    decide +kernel
  have hgood : (confDisk.filesBelow "t".toList).filter (confDisk.renders confTree) =
      [confVisit "app.json".toList, confVisit "sub/late".toList] := by
    decide +kernel
  have happ : confDisk.rendering? confTree "t/app.json".toList = some (.ok "[1]".toList) := by
    decide +kernel
  have hlate : confDisk.rendering? confTree "t/sub/late".toList = some (.ok "[1]".toList) := by
    decide +kernel
  constructor
  · obtain ⟨-, hstop⟩ := renderDir_exact hwf hroot hfree hread confTree ⟨false, true⟩
    obtain ⟨after, hrun, hrendered, -, hkept⟩ := hstop rfl _ _ _ (.missing "b".toList) hfiles
      (by decide +kernel) (by decide +kernel)
    refine ⟨after, hrun, ?_, hkept (confVisit "sub/late".toList) (by simp)⟩
    rw [hbefore] at hrendered
    obtain ⟨out, hout, hread⟩ := hrendered.rewritten _ List.mem_cons_self
    obtain rfl := Except.ok.inj (Option.some.inj (happ.symm.trans hout))
    exact hread.trans (by decide +kernel)
  · obtain ⟨hdone, -⟩ := renderDir_exact hwf hroot hfree hread confTree ⟨true, true⟩
    obtain ⟨after, hrun, hrendered, hkept⟩ := hdone (.inl rfl)
    rw [hgood] at hrun hrendered
    refine ⟨after, hrun, ?_, hkept (confVisit "bad".toList) (by rw [hfiles]; simp)
      (by decide +kernel)⟩
    obtain ⟨out, hout, hread⟩ :=
      hrendered.rewritten _ (List.mem_cons_of_mem _ List.mem_cons_self)
    obtain rfl := Except.ok.inj (Option.some.inj (hlate.symm.trans hout))
    exact hread.trans (by decide +kernel)

end Disk

end ConfigTemplate
