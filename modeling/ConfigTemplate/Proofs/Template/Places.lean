/-
Templates without the places of their tokens.

Where a token stands is only said in the faults of parsing.  So what is parsed behind other
text is what is parsed by itself, up to places, and draws the same.

* `build_unplaced`: nodes are built from segments whatever their places are;
* `exists_build_scanFrom`: so a text that parses can be parsed at any place;
* `map_written_of_unplaced`: and nodes that differ in places write the same.
-/
import ConfigTemplate.Proofs.Reference.Scanning
import ConfigTemplate.Proofs.Template.Strokes

namespace ConfigTemplate

@[simp] theorem Token.kind_unplaced (t : Token) : t.unplaced.kind = t.kind := rfl

@[simp] theorem Token.path_unplaced (t : Token) : t.unplaced.path = t.path := rfl

namespace Node

@[simp] theorem name_unplaced (t : Token) : name t.unplaced = name t := rfl

mutual

/-- A node without the places of its tokens. -/
def unplaced : Node → Node
  | .text s => .text s
  | .reference t => .reference t.unplaced
  | .block tag body => .block tag.unplaced (unplacedAll body)

/-- Nodes with nothing said of where their references stand. -/
def unplacedAll : List Node → List Node
  | [] => []
  | n :: ns => n.unplaced :: unplacedAll ns

end

@[simp] theorem unplacedAll_nil : unplacedAll [] = [] := rfl

@[simp] theorem unplacedAll_cons (n : Node) (ns : List Node) :
    unplacedAll (n :: ns) = n.unplaced :: unplacedAll ns := rfl

@[simp] theorem unplacedAll_append (ms ns : List Node) :
    unplacedAll (ms ++ ns) = unplacedAll ms ++ unplacedAll ns := by
  induction ms with
  | nil => rfl
  | cons m ms ih => exact congrArg (m.unplaced :: ·) ih

@[simp] theorem unplacedAll_literal (s : Text) : unplacedAll (literal s) = literal s := by
  unfold literal
  split <;> rfl

/-! ### Parsing -/

/-- Open sections without the places of their tokens. -/
def unplacedOuter (outer : List (Token × List Node)) : List (Token × List Node) :=
  outer.map fun o => (o.1.unplaced, unplacedAll o.2)

/-- **Nodes are built from segments whatever their places are.**  A fault of parsing names a
line, so that only what is built is compared. -/
theorem build_unplaced (outer : List (Token × List Node)) (body : List Node)
    (segments : Segments) :
    (build (unplacedOuter outer) (unplacedAll body) segments.unplaced).toOption =
      (build outer body segments).toOption.map unplacedAll := by
  -- Each step looks at the kind of a token and at names, which have no places.
  induction segments generalizing outer body with
  | last s =>
    rcases outer with _ | ⟨⟨tag, before⟩, outer⟩
    · simp [build, Segments.unplaced, unplacedOuter, Except.toOption]
    · simp [build, Segments.unplaced, unplacedOuter, Except.toOption]
  | before gap t rest ih =>
    have hbody : unplacedAll body ++ literal gap = unplacedAll (body ++ literal gap) := by simp
    rw [Segments.unplaced]
    unfold build
    rw [hbody, Token.kind_unplaced]
    rcases hk : t.kind
    case closing =>
      rcases outer with _ | ⟨⟨tag, before⟩, outer⟩
      · rfl
      · by_cases hname : name tag = name t
        · have hnodes := ih outer (before ++ [block tag (body ++ literal gap)])
          simpa [unplacedOuter, hname, unplaced] using hnodes
        · simp [unplacedOuter, hname, Except.toOption]
    case opening | inverted => exact ih ((t, body ++ literal gap) :: outer) []
    all_goals
      have hnodes := ih outer (body ++ literal gap ++ [reference t])
      simpa [unplaced] using hnodes

/-- A text that parses can be parsed at any place, to the same nodes up to places. -/
theorem exists_build_scanFrom {source : Text} {template : Template}
    (h : Template.parse source = .ok template) (m : Mark) :
    ∃ nodes, build [] [] (scanFrom placeholder? m 0 source) = .ok nodes ∧
      unplacedAll nodes = unplacedAll template.nodes := by
  have hstart := build_unplaced [] [] (placeholders source)
  rw [placeholders, scan, unplaced_scanFrom .start m, ← scan, ← placeholders,
    Template.build_of_parse h, build_unplaced] at hstart
  rcases hb : build [] [] (scanFrom placeholder? m 0 source) with fault | nodes
  · simp [hb, Except.toOption] at hstart
  · refine ⟨nodes, rfl, ?_⟩
    simpa [hb, Except.toOption] using hstart

/-! ### Drawing -/

/-- What nodes write does not depend on places. -/
theorem map_written_unplacedAll (ns : List Node) (frames : Context) :
    (strokesAll frames (unplacedAll ns)).map Stroke.written =
      (strokesAll frames ns).map Stroke.written := by
  induction ns using inductAll generalizing frames with
  | nil => rfl
  | text s ns ih => simp [unplaced, strokes, ih]
  | reference t ns ih => simp [unplaced, strokes, Stroke.written, ih]
  | block tag body ns hbody ih =>
    rw [unplacedAll_cons, strokesAll_cons, strokesAll_cons, List.map_append, List.map_append, ih]
    congr 1
    exact map_written_block_congr rfl rfl (fun _ => hbody frames) fun t => hbody (t :: frames)

theorem map_written_of_unplaced {ms ns : List Node} (h : unplacedAll ms = unplacedAll ns)
    (frames : Context) :
    (strokesAll frames ms).map Stroke.written = (strokesAll frames ns).map Stroke.written := by
  rw [← map_written_unplacedAll ms, h, map_written_unplacedAll]

end Node

end ConfigTemplate
