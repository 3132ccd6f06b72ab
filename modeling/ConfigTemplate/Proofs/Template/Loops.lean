/-
Sections over lists.

A section over a list draws its body for one item after another.  Sections over the items,
in a row, do the same.

* `build_append_closing`: what a text parses to is what it is in a section;
* `exists_parse_sections`: so sections in a row parse to sections in a row, each with the
  nodes that the body is by itself;
* `render_sections_congr`: sections with one body render alike if they draw it for the same
  trees;
* `loop_unrolls`: and a section over a list renders as the sections over its items do.
-/
import ConfigTemplate.Proofs.Inventory.Preflight
import ConfigTemplate.Proofs.Reference.Adjacent
import ConfigTemplate.Proofs.Template.Agreement
import ConfigTemplate.Proofs.Template.Places
import ConfigTemplate.Proofs.Tree.Variables

namespace ConfigTemplate

/-- Sections in a row, all with the same body. -/
def sectionsText (names : List Text) (body : Text) : Text :=
  names.flatMap fun name => sectionText name body

namespace Node

/-! ### Parsing sections -/

/-- **What a text parses to is what it is in a section**: behind the tag and before the one
that closes it, its nodes become the body. -/
theorem build_append_closing {nodes : List Node} {inner : List (Token × List Node)}
    {body : List Node} {segments : Segments} (h : Builds nodes inner body segments)
    {tag closing : Token} (hclosing : closing.kind = .closing) (hname : name tag = name closing)
    (before : List Node) (outer : List (Token × List Node)) (rest : Segments) :
    build (inner ++ (tag, before) :: outer) body (segments.append (.before [] closing rest)) =
      build outer (before ++ [block tag nodes]) rest := by
  -- Every step of parsing the text by itself is a step with more sections around it.
  induction h with
  | last h =>
    subst h
    simp [Segments.append, build, hclosing, hname]
  | @opening inner body gap t more ht _ ih =>
    rw [← ih]
    have hkind : t.kind = .opening ∨ t.kind = .inverted := by simpa [Token.opens] using ht
    rcases hkind with hk | hk <;> simp [Segments.append, build, hk]
  | @closing inner before' body gap tag' t more ht hname' _ ih =>
    rw [← ih]
    simp [Segments.append, build, ht, hname']
  | @reference inner body gap t more ht _ ih =>
    rw [← ih]
    rcases hk : t.kind <;> simp [Token.isSection, hk] at ht <;>
      simp [Segments.append, build, hk]

/-- Whether a node is a section of that name with that body, up to places. -/
def IsSection (body : List Node) (n : Text) (node : Node) : Prop :=
  ∃ tag inner, node = .block tag inner ∧ tag.kind = .opening ∧ name tag = n ∧
    unplacedAll inner = unplacedAll body

/-- Sections in a row are built one after another, wherever the first of them begins. -/
theorem exists_build_sections {body : Text} {template : Template}
    (hbody : Template.parse body = .ok template) {names : List Text}
    (hnames : ∀ n ∈ names, PlainName n) (before : List Node) (m : Mark) :
    ∃ nodes, build [] before (scanFrom placeholder? m 0 (sectionsText names body)) =
        .ok (before ++ nodes) ∧
      List.Forall₂ (IsSection template.nodes) names nodes := by
  induction names generalizing before m with
  | nil => exact ⟨[], rfl, .nil⟩
  | cons n names ih =>
    -- The first section is closed before the others begin, which find one node more.
    obtain ⟨hn, hnames⟩ := List.forall_mem_cons.mp hnames
    obtain ⟨tag, closing, m', m'', htag, hraw, hclosing, hraw', hscan⟩ :=
      scanFrom_section hn body (sectionsText names body) m
    obtain ⟨inner, hinner, hunplaced⟩ := exists_build_scanFrom hbody m'
    obtain ⟨nodes, hnodes, hsections⟩ := ih hnames (before ++ [block tag inner]) m''
    refine ⟨block tag inner :: nodes, ?_, .cons ⟨tag, inner, rfl, htag, hraw, hunplaced⟩ hsections⟩
    have hclosed := build_append_closing (builds_of_build hinner) hclosing
      (hraw.trans hraw'.symm) before [] (scanFrom placeholder? m'' 0 (sectionsText names body))
    have hopened : build [] before (scanFrom placeholder? m 0 (sectionsText (n :: names) body)) =
        build [(tag, before)] [] ((scanFrom placeholder? m' 0 body).append
          (.before [] closing (scanFrom placeholder? m'' 0 (sectionsText names body)))) := by
      rw [sectionsText, List.flatMap_cons, ← sectionsText, hscan]
      simp [build, htag, literal]
    rw [hopened]
    rw [List.nil_append] at hclosed
    rw [hclosed, hnodes, List.append_assoc, List.singleton_append]

theorem exists_parse_sections {body : Text} {template : Template}
    (hbody : Template.parse body = .ok template) {names : List Text}
    (hnames : ∀ n ∈ names, PlainName n) :
    ∃ nodes, Template.parse (sectionsText names body) = .ok ⟨nodes⟩ ∧
      List.Forall₂ (IsSection template.nodes) names nodes := by
  obtain ⟨nodes, hbuild, hsections⟩ := exists_build_sections hbody hnames [] .start
  refine ⟨nodes, ?_, hsections⟩
  have hbuild' : build [] [] (placeholders (sectionsText names body)) = .ok nodes := hbuild
  simp [Template.parse, hbuild', bind, Except.bind]

/-! ### Drawing sections -/

/-- Sections in a row write their bodies for all their trees in a row. -/
theorem map_written_sections {body nodes : List Node} {names : List Text}
    (h : List.Forall₂ (IsSection body) names nodes) (frames : Context) :
    (strokesAll frames nodes).map Stroke.written =
      (names.flatMap fun n => rounds (frames.lookup n)).flatMap fun t =>
        (strokesAll (t :: frames) body).map Stroke.written := by
  induction h with
  | nil => rfl
  | @cons n node names nodes hnode _ ih =>
    obtain ⟨tag, inner, rfl, htag, rfl, hunplaced⟩ := hnode
    -- The body has other places than by itself, and writes the same.
    have hkind : tag.kind ≠ .inverted := by simp [htag]
    rw [strokesAll_cons, List.map_append, ih, List.flatMap_cons, List.flatMap_append, strokes]
    simp only [hkind, if_false, List.map_flatMap, map_written_of_unplaced hunplaced]

/-- Nothing stands outside sections in a row. -/
theorem outside_sections {body nodes : List Node} {names : List Text}
    (h : List.Forall₂ (IsSection body) names nodes) : outside nodes = [] := by
  induction h with
  | nil => rfl
  | cons hnode _ ih =>
    obtain ⟨tag, inner, rfl, -⟩ := hnode
    exact ih

/-- With nothing outside the sections there is nothing to verify. -/
theorem verify_sections {body nodes : List Node} {names : List Text}
    (h : List.Forall₂ (IsSection body) names nodes) (config : Tree) :
    Template.verify ⟨nodes⟩ config = .ok () := by
  rw [Template.verify_eq, outside_sections h]
  rfl

end Node

/-- **Sections with one body render alike if they draw it for the same trees.** -/
theorem render_sections_congr {body : Text} {template : Template}
    (hbody : Template.parse body = .ok template) {names names' : List Text}
    (hnames : ∀ n ∈ names, PlainName n) (hnames' : ∀ n ∈ names', PlainName n) {config : Tree}
    (h : (names.flatMap fun n => Node.rounds (Context.lookup [config] n)) =
      names'.flatMap fun n => Node.rounds (Context.lookup [config] n)) :
    render (sectionsText names body) config = render (sectionsText names' body) config := by
  obtain ⟨nodes, hparse, hsections⟩ := Node.exists_parse_sections hbody hnames
  obtain ⟨nodes', hparse', hsections'⟩ := Node.exists_parse_sections hbody hnames'
  have hwritten : (Node.strokesAll [config] nodes).map Stroke.written =
      (Node.strokesAll [config] nodes').map Stroke.written := by
    rw [Node.map_written_sections hsections, Node.map_written_sections hsections', h]
  rw [render_of_parse hparse, render_of_parse hparse',
    Template.render_of_verify (Node.verify_sections hsections config),
    Template.render_of_verify (Node.verify_sections hsections' config), Stroke.run_congr hwritten]

/-! ### Items of a list -/

/-- The dotted path of an item in the list that a name leads to. -/
def itemName (name : Text) (i : Nat) : Text :=
  name ++ '.' :: Decimal.natText i

section

variable {name : Text}

theorem plainName_itemName (h : PlainName name) (i : Nat) : PlainName (itemName name i) := by
  have hchar : ∀ c ∈ Decimal.natText i, c.isAlphanum = true ∨ c = '-' := (plainKey_natText i).2
  refine ⟨by simp [itemName], fun c hc => ?_, ?_⟩
  · rcases List.mem_append.mp hc with hc | hc
    · exact h.chars c hc
    · rcases List.mem_cons.mp hc with rfl | hc
      · rfl
      · exact isPathChar_of_plain (hchar c hc)
  · refine Text.trim_append h.trim h.nonempty (List.forall_mem_cons.mpr ⟨by decide, ?_⟩)
      (List.cons_ne_nil _ _)
    exact fun c hc => isBlank_of_plain (hchar c hc)

theorem segments_itemName (name : Text) (i : Nat) :
    segments (itemName name i) = segments name ++ [Decimal.natText i] := by
  have hdot : '.' ∉ Decimal.natText i := (plainKey_natText i).not_mem (by decide) (by decide)
  simp only [segments, itemName, Text.pieces_eq_splitOn, List.splitOn_append_cons_self,
    List.splitOn_eq_singleton hdot]

theorem itemName_ne_current (name : Text) (i : Nat) : itemName name i ≠ Context.current := by
  intro h
  have hlen := congrArg List.length h
  have hne := List.length_pos_iff.mpr (Decimal.natText_ne_nil i)
  simp [itemName, Context.current] at hlen
  omega

/-- The path of an item leads to the item. -/
theorem lookup_itemName {config : Tree} {items : List Tree} (hname : name ≠ Context.current)
    (hitems : Context.lookup [config] name = some (.list items)) {i : Nat}
    (hi : i < Nat.pow 2 64) :
    Context.lookup [config] (itemName name i) = items[i]? := by
  rw [Context.lookup_singleton _ hname, Tree.lookupDotted] at hitems
  rw [Context.lookup_singleton _ (itemName_ne_current name i), Tree.lookupDotted,
    segments_itemName, Tree.lookup_append, hitems, Option.bind_some, Tree.lookup_cons, Tree.child,
    Decimal.readIndex_natText hi]
  simp

theorem rounds_of_not_list {t : Tree} (htruthy : t.isTruthy = true) (hlist : ∀ us, t ≠ .list us) :
    Node.rounds (some t) = [t] := by
  cases t with
  | list us => exact absurd rfl (hlist us)
  | _ => simp [Node.rounds, htruthy]

/-- The sections over the items draw their body for one item after another. -/
theorem rounds_items {config : Tree} {items : List Tree} (hname : name ≠ Context.current)
    (hitems : Context.lookup [config] name = some (.list items))
    (hsize : items.length ≤ Nat.pow 2 64)
    (hround : ∀ t ∈ items, t.isTruthy = true ∧ ∀ us, t ≠ .list us) :
    (((List.range items.length).map (itemName name)).flatMap fun n =>
      Node.rounds (Context.lookup [config] n)) = items := by
  have hitem : ∀ i ∈ List.range items.length,
      Node.rounds (Context.lookup [config] (itemName name i)) = [items[i]?.getD .null] := by
    intro i hi
    have hlt : i < items.length := List.mem_range.mp hi
    obtain ⟨htruthy, hlist⟩ := hround items[i] (List.getElem_mem hlt)
    rw [lookup_itemName hname hitems (Nat.lt_of_lt_of_le hlt hsize), List.getElem?_eq_getElem hlt,
      rounds_of_not_list htruthy hlist, Option.getD_some]
  rw [List.flatMap_map, List.flatMap_congr hitem, ← List.map_eq_flatMap]
  refine List.ext_getElem (by simp) fun i _ hlt => ?_
  simp [List.getElem?_eq_getElem hlt]

end

/-- **Section loops unroll.**  A section over a list renders as the sections over its items
do, one after another: to the same output, or with the same value missing.  The items are
truthy and no lists themselves, so that each section draws the body for its item. -/
theorem loop_unrolls {body name : Text} {template : Template} {config : Tree} {items : List Tree}
    (hbody : Template.parse body = .ok template) (hplain : PlainName name)
    (hname : name ≠ Context.current)
    (hitems : Context.lookup [config] name = some (.list items))
    (hsize : items.length ≤ Nat.pow 2 64)
    (hround : ∀ t ∈ items, t.isTruthy = true ∧ ∀ us, t ≠ .list us) :
    render (sectionText name body) config =
      render ((List.range items.length).flatMap fun i => sectionText (itemName name i) body)
        config := by
  have hnames : ∀ n ∈ (List.range items.length).map (itemName name), PlainName n := by
    intro n hn
    obtain ⟨i, -, rfl⟩ := List.mem_map.mp hn
    exact plainName_itemName hplain i
  have hsame : ([name].flatMap fun n => Node.rounds (Context.lookup [config] n)) =
      ((List.range items.length).map (itemName name)).flatMap fun n =>
        Node.rounds (Context.lookup [config] n) := by
    rw [rounds_items hname hitems hsize hround, List.flatMap_singleton, hitems]
    rfl
  have hunrolled :=
    render_sections_congr hbody (List.forall_mem_singleton.mpr hplain) hnames hsame
  simpa [sectionsText, List.flatMap_map] using hunrolled

/-! ### A section in a loop -/

/-- A line with a name and a loop over the tags. -/
def rowBody : Text :=
  "\x7b\x7b name \x7d\x7d:\x7b\x7b#tags\x7d\x7d \x7b\x7b.\x7d\x7d\x7b\x7b/tags\x7d\x7d\n".toList

/-- Two rows, of which one has a list of tags and the other a single tag. -/
def rowItems : List Tree :=
  [.map [("name".toList, .string "a".toList),
      ("tags".toList, .list [.string "x".toList, .string "y".toList])],
    .map [("name".toList, .string "b".toList), ("tags".toList, .string "z".toList)]]

/-- A configuration with these rows. -/
def rowConfig : Tree :=
  .map [("rows".toList, .list rowItems)]

/-- The loop over the rows and the sections over the two of them render to the same lines. -/
theorem rowConfig_unrolls :
    (∃ template, Template.parse rowBody = .ok template) ∧ PlainName "rows".toList ∧
      Context.lookup [rowConfig] "rows".toList = some (.list rowItems) ∧
      (∀ t ∈ rowItems, t.isTruthy = true ∧ ∀ us, t ≠ .list us) ∧
      render (sectionText "rows".toList rowBody) rowConfig = .ok "a: x y\nb: z\n".toList ∧
      render (sectionText "rows.0".toList rowBody ++ sectionText "rows.1".toList rowBody)
        rowConfig = .ok "a: x y\nb: z\n".toList := by
  have hparse : ∃ template, Template.parse rowBody = .ok template := by
    rcases hp : Template.parse rowBody with fault | template
    · have hok : (Template.parse rowBody).isOk = true := by decide +kernel
      rw [hp] at hok
      cases hok
    · exact ⟨template, rfl⟩
  have hlookup : Context.lookup [rowConfig] "rows".toList = some (.list rowItems) := rfl
  have hround : ∀ t ∈ rowItems, t.isTruthy = true ∧ ∀ us, t ≠ .list us := by
    simp [rowItems, Tree.isTruthy]
  have hrender : render (sectionText "rows".toList rowBody) rowConfig =
      .ok "a: x y\nb: z\n".toList := by decide +kernel
  obtain ⟨template, hbody⟩ := hparse
  have hplain : PlainName "rows".toList := ⟨by decide, List.all_eq_true.mp rfl, rfl⟩
  have hname : "rows".toList ≠ Context.current := by decide
  have hsize : rowItems.length ≤ Nat.pow 2 64 := by decide
  have hunrolled := loop_unrolls hbody hplain hname hlookup hsize hround
  exact ⟨⟨template, hbody⟩, hplain, hlookup, hround, hrender, hunrolled.symm.trans hrender⟩

end ConfigTemplate
