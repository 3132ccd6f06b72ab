/-
Sections as conditions.

A section over a value that is no list is drawn once or not at all.

* `map_written_childless`: a pushed tree without children is not seen by the nodes, unless
  they refer to the innermost tree;
* `scalar_section_transparent`: so a section over a truthy scalar renders to what its body
  renders to by itself;
* `entered_eq_false_iff`: a section is left out for the falsy values and no others;
* `section_complements_inverse`: of a section and its inverse, exactly one is drawn.
-/
import ConfigTemplate.Proofs.Decimal.Value
import ConfigTemplate.Proofs.Tree.Leaves
import ConfigTemplate.Proofs.Template.Loops

namespace ConfigTemplate

/-! ### Trees without children -/

namespace Context

/-- A pushed tree without children hides no name but that of the innermost tree, and not
even that behind another one. -/
theorem lookup_append_childless {v : Tree} (hv : ∀ k, v.child k = none) {pushed : Context}
    (outer : Context) {path : Text} (h : pushed = [] → path ≠ current) :
    lookup (pushed ++ v :: outer) path = lookup (pushed ++ outer) path := by
  by_cases hp : path = current
  · cases pushed with
    | nil => exact absurd hp (h rfl)
    | cons u pushed =>
      rw [hp, lookup_current, lookup_current]
      rfl
  · have hhas : has v (firstSegment path) = false := by
      rw [has, hv]
      rfl
    have houter : lookup (v :: outer) path = lookup outer path := by
      rw [lookup_of_ne_current _ hp, lookup_of_ne_current _ hp,
        List.find?_cons_of_neg (by simp [hhas])]
    exact lookup_append_congr houter pushed

end Context

namespace Node

mutual

/-- Whether nothing refers to the innermost tree, neither a reference nor the name of a
section, but inside a section that pushes one. -/
def Closed : Node → Prop
  | .text _ => True
  | .reference t => t.path.raw ≠ Context.current
  | .block tag body => name tag ≠ Context.current ∧ (tag.kind = .inverted → ClosedAll body)

/-- Every one of the nodes is closed. -/
def ClosedAll : List Node → Prop
  | [] => True
  | n :: ns => Closed n ∧ ClosedAll ns

end

/-- **A pushed tree without children is not seen**: nodes write what they write without it,
behind whatever the sections among them have pushed. -/
theorem map_written_childless {v : Tree} (hv : ∀ k, v.child k = none) {ns : List Node}
    (hplain : ∀ t ∈ tokensAll ns, ∃ u, t.path = .literal u) {pushed : Context} (outer : Context)
    (hclosed : pushed = [] → ClosedAll ns) :
    (strokesAll (pushed ++ v :: outer) ns).map Stroke.written =
      (strokesAll (pushed ++ outer) ns).map Stroke.written := by
  induction ns using inductAll generalizing pushed with
  | nil => rfl
  | text s ns ih =>
    have hns := ih hplain fun hp => (hclosed hp).2
    simp [strokes, hns]
  | reference t ns ih =>
    obtain ⟨ht, hrest⟩ := List.forall_mem_cons.mp hplain
    have hns := ih hrest fun hp => (hclosed hp).2
    have hresolve := Context.resolve_congr ht
      (Context.lookup_append_childless hv outer fun hp => (hclosed hp).1)
    simp [strokes, Stroke.written, hresolve, hns]
  | block tag body ns hbody ih =>
    obtain ⟨-, hrest⟩ := List.forall_mem_cons.mp hplain
    obtain ⟨hinner, hnext⟩ := List.forall_mem_append.mp hrest
    have hns := ih hnext fun hp => (hclosed hp).2
    rw [strokesAll_cons, strokesAll_cons, List.map_append, List.map_append, hns]
    congr 1
    apply map_written_block_congr rfl
    · exact Context.lookup_append_childless hv outer fun hp => (hclosed hp).1.1
    · intro hk
      exact hbody hinner fun hp => (hclosed hp).1.2 hk
    · intro t
      -- The body stands behind the tree that the section pushes.
      exact @hbody hinner (t :: pushed) fun hp => absurd hp (List.cons_ne_nil t pushed)

end Node

/-! ### Values for which a section is left out -/

/-- What a section is left out for: nothing, null, `false`, a number that is zero, and the empty
text and list. -/
def Falsy : Option Tree → Prop
  | none => True
  | some .null => True
  | some (.bool b) => b = false
  | some (.number n) => n.value = 0
  | some (.string s) => s = []
  | some (.list items) => items = []
  | some (.map _) => False

namespace Tree

theorem isTruthy_number_iff (n : Number) : (Tree.number n).isTruthy = true ↔ n.value ≠ 0 := by
  have hzero := n.isZero_iff
  constructor
  · intro h hvalue
    simp [isTruthy, hzero.mpr hvalue] at h
  · intro h
    rw [isTruthy, Bool.not_eq_true', ← Bool.not_eq_true]
    exact fun hz => h (hzero.mp hz)

theorem isTruthy_eq_false_iff (t : Tree) : t.isTruthy = false ↔ Falsy (some t) := by
  cases t with
  | number n => rw [← Bool.not_eq_true, isTruthy_number_iff, not_not, Falsy]
  | _ => simp [isTruthy, Falsy]

theorem child_of_isScalar {t : Tree} (h : t.isScalar = true) (k : Text) : t.child k = none := by
  cases t with
  | list items => cases h
  | map entries => cases h
  | _ => rfl

theorem ne_list_of_isScalar {t : Tree} (h : t.isScalar = true) (items : List Tree) :
    t ≠ .list items := by
  rintro rfl
  cases h

end Tree

theorem Node.entered_eq_false_iff (value : Option Tree) : entered value = false ↔ Falsy value := by
  cases value with
  | none => exact iff_of_true rfl trivial
  | some t => exact t.isTruthy_eq_false_iff

theorem isTruthy_of_not_falsy {t : Tree} (h : ¬ Falsy (some t)) : t.isTruthy = true := by
  rw [← Bool.not_eq_false]
  exact fun hfalse => h (t.isTruthy_eq_false_iff.mp hfalse)

/-! ### Sections over scalars -/

/-- **A section over a truthy scalar is transparent.**  It renders to an output if and only if
its body renders to the same output by itself.  The body has no nested references, and refers
to the innermost tree only inside sections of its own. -/
theorem scalar_section_transparent {body name : Text} {template : Template} {config v : Tree}
    (hbody : Template.parse body = .ok template)
    (hplain : ∀ t ∈ (placeholders body).tokens, t.path.isNested = false)
    (hclosed : Node.ClosedAll template.nodes) (hname : PlainName name)
    (hv : Context.lookup [config] name = some v) (hscalar : v.isScalar = true)
    (htruthy : ¬ Falsy (some v)) (output : Text) :
    render (sectionText name body) config = .ok output ↔ render body config = .ok output := by
  obtain ⟨nodes, hparse, hsections⟩ :=
    Node.exists_parse_sections hbody (List.forall_mem_singleton.mpr hname)
  have htext : sectionsText [name] body = sectionText name body := List.append_nil _
  have hliteral : ∀ t ∈ Node.tokensAll template.nodes, ∃ u, t.path = .literal u := by
    intro t ht
    rw [Template.tokens_parse hbody] at ht
    have hmem := List.mem_of_mem_filter ht
    exact literal_of_not_nested hmem (hplain t hmem)
  have hrounds : Node.rounds (some v) = [v] :=
    rounds_of_not_list (isTruthy_of_not_falsy htruthy) (Tree.ne_list_of_isScalar hscalar)
  -- The section draws its body once, with the scalar pushed.
  have hwritten : (Node.strokesAll [config] nodes).map Stroke.written =
      (Node.strokesAll [config] template.nodes).map Stroke.written := by
    rw [Node.map_written_sections hsections, List.flatMap_singleton, hv, hrounds,
      List.flatMap_singleton]
    exact @Node.map_written_childless v (Tree.child_of_isScalar hscalar) _ hliteral [] [config]
      fun _ => hclosed
  rw [htext] at hparse
  rw [render_eq_ok_iff_of_parse hparse, render_eq_ok_iff_of_parse hbody,
    Template.render_eq_ok_iff, Template.render_eq_ok_iff, Stroke.run_congr hwritten]

/-- A line with a reference, a section over a list that draws its items, and an inverted
section. -/
def flagBody : Text :=
  "\x7b\x7b x \x7d\x7d\x7b\x7b#l\x7d\x7d[\x7b\x7b.\x7d\x7d]\x7b\x7b/l\x7d\x7d".toList ++
    "\x7b\x7b^m\x7d\x7d-\x7b\x7b/m\x7d\x7d".toList

/-- The template parsed. -/
def flagTemplate : Template :=
  ⟨[.reference ⟨.name, .literal "x ".toList, "\x7b\x7b x \x7d\x7d".toList, ⟨1, 0⟩⟩,
    .block ⟨.opening, .literal "l".toList, "\x7b\x7b#l\x7d\x7d".toList, ⟨1, 7⟩⟩
      [.text "[".toList,
        .reference ⟨.name, .literal ".".toList, "\x7b\x7b.\x7d\x7d".toList, ⟨1, 14⟩⟩,
        .text "]".toList],
    .block ⟨.inverted, .literal "m".toList, "\x7b\x7b^m\x7d\x7d".toList, ⟨1, 26⟩⟩
      [.text "-".toList]]⟩

/-- A number, a text and a list, but no `m`. -/
def flagConfig : Tree :=
  .map [("n".toList, .number (.int 3 (by decide))), ("x".toList, .string "v".toList),
    ("l".toList, .list [.string "p".toList, .null])]

/-- A section over the number renders to what the line renders to. -/
theorem flagBody_transparent :
    Template.parse flagBody = .ok flagTemplate ∧
      (∀ t ∈ (placeholders flagBody).tokens, t.path.isNested = false) ∧
      Node.ClosedAll flagTemplate.nodes ∧ PlainName "n".toList ∧
      (∃ v, Context.lookup [flagConfig] "n".toList = some v ∧ v.isScalar = true ∧
        ¬ Falsy (some v)) ∧
      render (sectionText "n".toList flagBody) flagConfig = .ok "v[p][]-".toList := by
  have hparse : Template.parse flagBody = .ok flagTemplate := by decide +kernel
  have hplain : ∀ t ∈ (placeholders flagBody).tokens, t.path.isNested = false := by
    decide +kernel
  have hclosed : Node.ClosedAll flagTemplate.nodes := by
    have hx : (Path.literal "x ".toList).raw ≠ Context.current := by decide
    have hl : (Path.literal "l".toList).raw ≠ Context.current := by decide
    have hm : (Path.literal "m".toList).raw ≠ Context.current := by decide
    have hopening : Kind.opening ≠ .inverted := by decide
    exact ⟨hx, ⟨hl, fun hk => absurd hk hopening⟩, ⟨hm, fun _ => ⟨trivial, trivial⟩⟩, trivial⟩
  have hname : PlainName "n".toList := ⟨by decide, List.all_eq_true.mp rfl, rfl⟩
  have htruthy : ¬ Falsy (some (.number (.int 3 (by decide)))) := by
    norm_num [Falsy, Number.value]
  have hrender : render flagBody flagConfig = .ok "v[p][]-".toList := by decide +kernel
  have hsection :=
    (scalar_section_transparent hparse hplain hclosed hname rfl rfl htruthy _).mpr hrender
  exact ⟨hparse, hplain, hclosed, hname, ⟨_, rfl, rfl, htruthy⟩, hsection⟩

/-! ### A section and its inverse -/

namespace Node

/-- A section and its inverse behind it are parsed to two nodes with literal text in them, if
there is nothing else. -/
theorem exists_parse_section_inverted {n a b : Text} (hname : PlainName n)
    (ha : (placeholders a).tokens = []) (hb : (placeholders b).tokens = []) :
    ∃ tag tag' : Token, tag.kind = .opening ∧ name tag = n ∧ tag'.kind = .inverted ∧
      name tag' = n ∧ Template.parse (sectionText n a ++ invertedText n b) =
        .ok ⟨[block tag (literal a), block tag' (literal b)]⟩ := by
  obtain ⟨tag, closing, m, m', htag, hraw, hclosing, hraw', hscan⟩ :=
    scanFrom_section hname a (invertedText n b) .start
  obtain ⟨tag', closing', k, k', htag', hraw'', hclosing', hraw''', hscan'⟩ :=
    scanFrom_tagged hname (rfl : Placeholder.sigil? '^' = some .inverted) b [] m'
  have hinverted : scanFrom placeholder? m' 0 (invertedText n b) =
      .before [] tag' ((Segments.last b).append (.before [] closing' (.last []))) := by
    rw [← scanFrom_eq_last placeholder?_sound hb k]
    rw [List.append_nil] at hscan'
    exact hscan'
  refine ⟨tag, tag', htag, hraw, htag', hraw'', ?_⟩
  have hbuild : build [] [] (placeholders (sectionText n a ++ invertedText n b)) =
      .ok [block tag (literal a), block tag' (literal b)] := by
    rw [placeholders, scan, hscan, scanFrom_eq_last placeholder?_sound ha, hinverted]
    simp [Segments.append, build, htag, hclosing, htag', hclosing', name, hraw, hraw', hraw'',
      hraw''', literal]
  simp [Template.parse, hbuild, bind, Except.bind]

/-- Literal text is drawn once for each tree. -/
theorem run_flatMap_literal (frames : Context) (items : List Tree) (s output : Text) :
    Stroke.run (items.flatMap fun t => strokesAll (t :: frames) (literal s)) output =
      (.ok (), output ++ (List.replicate items.length s).flatten) := by
  induction items generalizing output with
  | nil => simp [Stroke.run]
  | cons t items ih =>
    rw [List.flatMap_cons, Stroke.run_append, run_literal]
    show Stroke.run _ (output ++ s) = _
    rw [ih, List.length_cons, List.replicate_succ, List.flatten_cons, List.append_assoc]

theorem rounds_of_falsy {value : Option Tree} (h : Falsy value) : rounds value = [] := by
  cases value with
  | none => rfl
  | some t =>
    have hfalse : t.isTruthy = false := t.isTruthy_eq_false_iff.mpr h
    cases t with
    | list items => exact h
    | _ => simp [rounds, hfalse]

/-- The section draws its text in every round, and the inverse its own if the section is not
entered. -/
theorem run_section_inverted {tag tag' : Token} (htag : tag.kind = .opening)
    (htag' : tag'.kind = .inverted) (frames : Context) (a b : Text) :
    Stroke.run (strokesAll frames [block tag (literal a), block tag' (literal b)]) [] =
      (.ok (), (List.replicate (rounds (frames.lookup (name tag))).length a).flatten ++
        if entered (frames.lookup (name tag')) then [] else b) := by
  have hsection := run_flatMap_literal frames (rounds (frames.lookup (name tag))) a []
  have hkind : tag.kind ≠ .inverted := by simp [htag]
  rw [strokesAll_cons, strokesAll_cons, strokesAll_nil, List.append_nil, strokes, strokes]
  simp only [hkind, htag', if_true, if_false]
  rw [Stroke.run_append, hsection, List.nil_append]
  cases entered (frames.lookup (name tag')) with
  | false => exact run_literal frames b _
  | true => simp [Stroke.run]

end Node

/-- How often a section draws its body if it is entered. -/
def repetitions : Option Tree → Nat
  | some (.list items) => items.length
  | _ => 1

theorem length_rounds {value : Option Tree} (h : ¬ Falsy value) :
    (Node.rounds value).length = repetitions value := by
  cases value with
  | none => exact absurd trivial h
  | some t =>
    cases t with
    | list items => rfl
    | _ =>
      rw [rounds_of_not_list (isTruthy_of_not_falsy h) (by simp)]
      rfl

/-- **A section and its inverse are complementary.**  With literal text in both, what is
rendered is the text of the inverse for the falsy values, and for all others the text of the
section: once for every item of a list, and once for anything else.  A number is falsy exactly
if it is zero, although it is tested in floating point. -/
theorem section_complements_inverse {name a b : Text} (hname : PlainName name)
    (ha : (placeholders a).tokens = []) (hb : (placeholders b).tokens = []) (config : Tree) :
    (Falsy (Context.lookup [config] name) →
      render (sectionText name a ++ invertedText name b) config = .ok b) ∧
    (¬ Falsy (Context.lookup [config] name) →
      render (sectionText name a ++ invertedText name b) config =
        .ok (List.replicate (repetitions (Context.lookup [config] name)) a).flatten) ∧
    ∀ n : Number, (Tree.number n).isTruthy = true ↔ n.value ≠ 0 := by
  obtain ⟨tag, tag', htag, hraw, htag', hraw', hparse⟩ :=
    Node.exists_parse_section_inverted hname ha hb
  have hrun := Node.run_section_inverted htag htag' [config] a b
  rw [hraw, hraw'] at hrun
  refine ⟨?_, ?_, Tree.isTruthy_number_iff⟩
  · intro hfalsy
    rw [render_eq_ok_iff_of_parse hparse, Template.render_eq_ok_iff, hrun,
      Node.rounds_of_falsy hfalsy, (Node.entered_eq_false_iff _).mpr hfalsy]
    rfl
  · intro htruthy
    have hentered : Node.entered (Context.lookup [config] name) = true := by
      rw [← Bool.not_eq_false, Node.entered_eq_false_iff]
      exact htruthy
    rw [render_eq_ok_iff_of_parse hparse, Template.render_eq_ok_iff, hrun, length_rounds htruthy,
      hentered, if_pos rfl, List.append_nil]

/-- Text with braces and no placeholder, which a tag may follow. -/
def bracedText : Text :=
  "\x7ba\x7b".toList

/-- For the list the section is drawn twice, and for what is missing the inverse once. -/
theorem bracedText_either :
    PlainName "l".toList ∧ PlainName "m".toList ∧ (placeholders bracedText).tokens = [] ∧
      (placeholders "\x7d\x7db".toList).tokens = [] ∧
      ¬ Falsy (Context.lookup [flagConfig] "l".toList) ∧
      render (sectionText "l".toList bracedText ++ invertedText "l".toList "\x7d\x7db".toList)
        flagConfig = .ok (bracedText ++ bracedText) ∧
      Falsy (Context.lookup [flagConfig] "m".toList) ∧
      render (sectionText "m".toList bracedText ++ invertedText "m".toList "\x7d\x7db".toList)
        flagConfig = .ok "\x7d\x7db".toList := by
  have hlist : PlainName "l".toList := ⟨by decide, List.all_eq_true.mp rfl, rfl⟩
  have hmissing : PlainName "m".toList := ⟨by decide, List.all_eq_true.mp rfl, rfl⟩
  have ha : (placeholders bracedText).tokens = [] := rfl
  have hb : (placeholders "\x7d\x7db".toList).tokens = [] := rfl
  have htruthy : ¬ Falsy (Context.lookup [flagConfig] "l".toList) := List.cons_ne_nil _ _
  have hfalsy : Falsy (Context.lookup [flagConfig] "m".toList) := trivial
  obtain ⟨-, hdrawn, -⟩ := section_complements_inverse hlist ha hb flagConfig
  obtain ⟨hinverse, -, -⟩ := section_complements_inverse hmissing ha hb flagConfig
  exact ⟨hlist, hmissing, ha, hb, htruthy, hdrawn htruthy, hfalsy, hinverse hfalsy⟩

end ConfigTemplate
