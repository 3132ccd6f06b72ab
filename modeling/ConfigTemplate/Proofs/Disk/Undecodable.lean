/-
Files that are not text.

Rendering leaves them as they are, and extraction reads them all the same.

* `Item.holdings_textOnly`: what the files below an item hold that are text;
* `Disk.mem_keys_mergeAll`: a key is found in all files together if it is found in one;
* `Disk.undecodable_contributes_its_stretches`: a file that is not text adds the keys of its
  stretches, and leaving it out makes no difference if there are none;
* `Disk.brokenDisk_extracted`: it does if there are some.
-/
import ConfigTemplate.Proofs.Disk.Extraction
import ConfigTemplate.Proofs.Inventory.Stretches
import ConfigTemplate.Proofs.Inventory.Union

namespace ConfigTemplate

/-! ### Files that are text -/

namespace Item

/-- Whether an item is a file that is not text. -/
def isBinary : Item → Bool
  | .file content => (Utf8.decode? content).isNone
  | _ => false

mutual

/-- An item without the files below it that are not text. -/
def textOnly : Item → Item
  | .dir es => .dir (textEntries es)
  | i => i

/-- The entries of a directory without the files that are not text. -/
def textEntries : List (Text × Item) → List (Text × Item)
  | [] => []
  | (name, i) :: es =>
    if i.isBinary then textEntries es else (name, i.textOnly) :: textEntries es

end

/-- Whether what a file holds is text. -/
def isText (f : Text × Bytes) : Bool :=
  (Utf8.decode? f.2).isSome

theorem held_textOnly (i : Item) (relative : Text) (hi : i.isBinary = false) :
    i.textOnly.held relative = (i.held relative).filter isText := by
  cases i with
  | file content =>
    have htext : isText (relative, content) = true := by
      simpa [isBinary, isText, Option.isNone_eq_false_iff] using hi
    simp [textOnly, held, htext]
  | dir es => rfl
  | link target => rfl

theorem holdings_of_isBinary {i : Item} (relative : Text) (hi : i.isBinary = true) :
    (i.held relative ++ i.holdings relative).filter isText = [] := by
  cases i with
  | file content =>
    have htext : isText (relative, content) = false := by
      simpa [isBinary, isText] using hi
    simp [held, holdings, htext]
  | dir es => cases hi
  | link target => cases hi

mutual

/-- Without the files that are not text, the others are still held. -/
theorem holdings_textOnly (i : Item) (relative : Text) :
    i.textOnly.holdings relative = (i.holdings relative).filter isText := by
  match i with
  | .file _ => rfl
  | .dir es => exact entryHoldings_textEntries es relative
  | .link _ => rfl

theorem entryHoldings_textEntries (es : List (Text × Item)) (relative : Text) :
    entryHoldings relative (textEntries es) = (entryHoldings relative es).filter isText := by
  match es with
  | [] => rfl
  | (name, i) :: es =>
    rw [textEntries, entryHoldings, List.filter_append]
    by_cases hi : i.isBinary = true
    · rw [if_pos hi, holdings_of_isBinary _ hi, List.nil_append, entryHoldings_textEntries es]
    · rw [if_neg hi, entryHoldings, held_textOnly i _ (by simpa using hi), holdings_textOnly i,
        entryHoldings_textEntries es, List.filter_append]

end

end Item

namespace Disk

/-! ### Keys of all files together -/

section

variable {style : ReferenceStyle} {config : Option Tree} {x : Bucket} {key : Text}

theorem mem_keys_mergeAll {files : List (Text × Bytes)} :
    key ∈ ((mergeAll style config files).bucket x).keys ↔
      ∃ f ∈ files, key ∈ ((extract style (Utf8.decodeLossy f.2) config).bucket x).keys := by
  have hfold : ∀ all : Inventory,
      key ∈ ((files.foldl (fun all f =>
        all.merge (extract style (Utf8.decodeLossy f.2) config)) all).bucket x).keys ↔
        key ∈ (all.bucket x).keys ∨
          ∃ f ∈ files, key ∈ ((extract style (Utf8.decodeLossy f.2) config).bucket x).keys := by
    intro all
    induction files generalizing all with
    | nil => simp
    | cons f files ih =>
      rw [List.foldl_cons, ih, Inventory.bucket_merge, KeySet.mem_keys_extend, or_assoc]
      simp
  rw [mergeAll, hfold, Inventory.bucket_empty]
  simp [KeySet.keys]

/-- Files for which there is nothing to extract can be left out. -/
theorem mergeAll_filter {files : List (Text × Bytes)} {p : Text × Bytes → Bool}
    (h : ∀ f ∈ files, p f = false → extract style (Utf8.decodeLossy f.2) config = .empty) :
    mergeAll style config (files.filter p) = mergeAll style config files := by
  have hfold : ∀ all : Inventory,
      (files.filter p).foldl (fun all f =>
        all.merge (extract style (Utf8.decodeLossy f.2) config)) all =
      files.foldl (fun all f => all.merge (extract style (Utf8.decodeLossy f.2) config)) all := by
    intro all
    induction files generalizing all with
    | nil => rfl
    | cons f files ih =>
      have hrest := ih fun g hg => h g (List.mem_cons_of_mem _ hg)
      by_cases hf : p f = true
      · rw [List.filter_cons_of_pos hf, List.foldl_cons, List.foldl_cons, hrest]
      · have hempty := h f List.mem_cons_self (by simpa using hf)
        rw [List.filter_cons_of_neg hf, List.foldl_cons, hempty, Inventory.merge_empty, hrest]
  exact hfold .empty

end

theorem renderFile_of_undecodable {d : Disk} {path : Text} {content : Bytes}
    (hread : d.read path = .ok content) (hcontent : Utf8.decode? content = none) (config : Tree)
    (options : RenderOptions) : d.renderFile path config options = (.ok false, d) := by
  rw [renderFile, hread]
  simp only [hcontent]

/-- **A file that is not text contributes its stretches.**  Rendering leaves such a file as it is,
but extraction finds in it the keys of its stretches.  So the keys that are extracted from a
directory are those of the files that are text and those of the stretches of the others, and
leaving these out makes no difference if nothing is extracted from their stretches. -/
theorem undecodable_contributes_its_stretches {d without : Disk} {dir dir' : Text}
    {es : List (Text × Item)} (h : d.Holds dir (.dir es))
    (h' : without.Holds dir' (Item.dir es).textOnly) (style : ReferenceStyle)
    (config : Option Tree) :
    (∀ path content, d.read path = .ok content → Utf8.decode? content = none →
      (∀ tree options, d.renderFile path tree options = (.ok false, d)) ∧
      ∃ found, d.extractFile style path config = .ok found ∧
        ∀ x key, key ∈ (found.bucket x).keys ↔
          ∃ s ∈ Utf8.stretches content, key ∈ ((extract style s config).bucket x).keys) ∧
    ∃ all rest, d.extractList style dir config = .ok all ∧
      without.extractList style dir' config = .ok rest ∧
      (∀ x key, key ∈ (all.bucket x).keys ↔ key ∈ (rest.bucket x).keys ∨
        ∃ f ∈ (Item.dir es).holdings [], Utf8.decode? f.2 = none ∧
          ∃ s ∈ Utf8.stretches f.2, key ∈ ((extract style s config).bucket x).keys) ∧
      ((∀ f ∈ (Item.dir es).holdings [], Utf8.decode? f.2 = none →
        ∀ s ∈ Utf8.stretches f.2, extract style s config = .empty) → all = rest) := by
  have hrest := extractList_of_holds h' style config
  have hholdings := Item.holdings_textOnly (.dir es) []
  rw [Item.textOnly] at hholdings
  rw [hholdings] at hrest
  refine ⟨fun path content hread hcontent => ⟨renderFile_of_undecodable hread hcontent, _, ?_,
    fun x key => mem_keys_extract_decodeLossy content⟩, _, _, extractList_of_holds h style config,
    hrest, fun x key => ?_, fun hempty => ?_⟩
  · rw [extractFile, hread]
  · simp only [mem_keys_mergeAll, List.mem_filter]
    constructor
    · rintro ⟨f, hf, hkey⟩
      rcases htext : Utf8.decode? f.2 with _ | source
      · exact .inr ⟨f, hf, htext, (mem_keys_extract_decodeLossy f.2).mp hkey⟩
      · exact .inl ⟨f, ⟨hf, by rw [Item.isText, htext]; rfl⟩, hkey⟩
    · rintro (⟨f, ⟨hf, -⟩, hkey⟩ | ⟨f, hf, -, hkey⟩)
      · exact ⟨f, hf, hkey⟩
      · exact ⟨f, hf, (mem_keys_extract_decodeLossy f.2).mpr hkey⟩
  · refine (mergeAll_filter fun f hf htext => ?_).symm
    refine extract_decodeLossy_eq_empty (hempty f hf ?_)
    simpa [Item.isText] using htext

/-! ### Files beside a template -/

/-- A template. -/
def conf : Text × Item :=
  ("b.conf".toList, .file (Utf8.encode "\x7b\x7b b \x7d\x7d".toList))

/-- A file with the given bytes. -/
def other (content : Bytes) : Text × Item :=
  ("a.bin".toList, .file content)

/-- The disk with these entries in its directory `t`. -/
def ofEntries (es : List (Text × Item)) : Disk :=
  ⟨.dir [("t".toList, .dir es)]⟩

/-- The first bytes of a picture. -/
def picture : Bytes :=
  [0x89, 0x50, 0x4E, 0x47, 0xFF]

/-- A reference of either style, and a byte that is no text. -/
def broken : Bytes :=
  Utf8.encode "\x7b\x7b a \x7d\x7d $q_c".toList ++ [0xFF]

theorem wellFormed_conf : conf.2.WellFormed :=
  .file _

theorem wellFormed_other (content : Bytes) : (other content).2.WellFormed :=
  .file content

theorem holds_picture :
    (ofEntries [other picture, conf]).Holds "t".toList (.dir [other picture, conf]) where
  wellFormed := by
    simp only [WellFormed, ofEntries, Item.wellFormed_dir_iff, List.forall_mem_cons,
      wellFormed_other, wellFormed_conf, List.not_mem_nil, false_implies, implies_true]
    decide
  find := rfl
  linkFree := .dir <| List.forall_mem_cons.mpr
    ⟨.file picture, List.forall_mem_singleton.mpr (.file _)⟩
  read := by
    have hfiles : (ofEntries [other picture, conf]).filesBelow "t".toList =
        [⟨"t/a.bin".toList, "a.bin".toList, false⟩,
          ⟨"t/b.conf".toList, "b.conf".toList, false⟩] := by
      decide +kernel
    rw [hfiles]
    simp only [List.forall_mem_cons, List.not_mem_nil, false_implies, implies_true, and_true]
    exact ⟨⟨_, rfl⟩, ⟨_, rfl⟩⟩

theorem holds_conf : (ofEntries [conf]).Holds "t".toList (.dir [conf]) where
  wellFormed := by
    simp only [WellFormed, ofEntries, Item.wellFormed_dir_iff, List.forall_mem_cons,
      wellFormed_conf, List.not_mem_nil, false_implies, implies_true]
    decide
  find := rfl
  linkFree := .dir (List.forall_mem_singleton.mpr (.file _))
  read := by
    have hfiles : (ofEntries [conf]).filesBelow "t".toList =
        [⟨"t/b.conf".toList, "b.conf".toList, false⟩] := by
      decide +kernel
    rw [hfiles]
    simp only [List.forall_mem_cons, List.not_mem_nil, false_implies, implies_true, and_true]
    exact ⟨_, rfl⟩

/-- A picture makes no difference to the template beside it. -/
theorem picture_makes_no_difference :
    Utf8.decode? picture = none ∧
    (ofEntries [other picture, conf]).renderFile "t/a.bin".toList .null {} =
      (.ok false, ofEntries [other picture, conf]) ∧
    ∃ found, (ofEntries [other picture, conf]).extractList .placeholders "t".toList none =
        .ok found ∧
      (ofEntries [conf]).extractList .placeholders "t".toList none = .ok found := by
  have hpicture : Utf8.decode? picture = none := by decide +kernel
  have hconf : Utf8.decode? (Utf8.encode "\x7b\x7b b \x7d\x7d".toList) ≠ none := by decide +kernel
  have hstretches : ∀ s ∈ Utf8.stretches picture, extract .placeholders s none = .empty := by
    have hpieces : Utf8.stretches picture = [[], "PNG".toList, []] := by decide +kernel
    rw [hpieces]
    simp only [List.forall_mem_cons, List.not_mem_nil, false_implies, implies_true, and_true]
    exact ⟨rfl, rfl, rfl⟩
  have hwithout : (ofEntries [conf]).Holds "t".toList (Item.dir [other picture, conf]).textOnly :=
    holds_conf
  obtain ⟨hfile, all, rest, hall, hrest, -, hsame⟩ :=
    undecodable_contributes_its_stretches holds_picture hwithout .placeholders none
  have hread : (ofEntries [other picture, conf]).read "t/a.bin".toList = .ok picture := rfl
  refine ⟨hpicture, (hfile _ _ hread hpicture).1 .null {}, all, hall, ?_⟩
  rw [hsame]
  · exact hrest
  · intro f hf htext
    rcases List.mem_pair.mp hf with rfl | rfl
    · exact hstretches
    · exact absurd htext hconf

/-- A file that is not text, which is left as it is, adds its reference to those of the template
beside it. -/
theorem brokenDisk_extracted :
    Utf8.decode? broken = none ∧
    (ofEntries [other broken, conf]).renderFile "t/a.bin".toList .null {} =
      (.ok false, ofEntries [other broken, conf]) ∧
    ((ofEntries [other broken, conf]).extractFile .placeholders "t/a.bin".toList none).map
      (·.required.keys) = .ok ["a".toList] ∧
    ((ofEntries [other broken, conf]).extractFile .envVars "t/a.bin".toList none).map
      (·.required.keys) = .ok ["c".toList] ∧
    ((ofEntries [other broken, conf]).extractList .placeholders "t".toList none).map
      (·.required.keys) = .ok ["a".toList, "b".toList] ∧
    ((ofEntries [conf]).extractList .placeholders "t".toList none).map
      (·.required.keys) = .ok ["b".toList] := by
  have hbroken : Utf8.decode? broken = none := by decide +kernel
  have hread : (ofEntries [other broken, conf]).read "t/a.bin".toList = .ok broken := rfl
  refine ⟨hbroken, renderFile_of_undecodable hread hbroken .null {}, ?_, ?_, ?_, ?_⟩
  all_goals decide +kernel

end Disk

end ConfigTemplate
