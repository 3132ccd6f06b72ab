/-
The references of a template.

`Node.references` lists the references of a node, those in the bodies of its
sections included, in the order of the text.  `Node.tokens` lists the opening tags
of sections as well.

* `tokens_parse`: the tokens of a parsed template are those of its text, but for the
  closing tags;
* `references_parse`: its references are the tokens of its text that are no tags of
  sections;
* `parse_flat`: a text without such tags is a template without sections;
* `verify_eq`: verifying stops at the first reference outside a section that
  leads nowhere.

Design notes: a parser with open sections has the tokens of the nodes before each
of them, their tags and the tokens of the body so far, and still has to read the
others.  That all these together never change is the invariant of `tokensAll_eq`.
`Builds` says once what a step of the parser can do, so that every such invariant is
an induction on the steps.
-/
import ConfigTemplate.Template.Render

namespace ConfigTemplate

/-- Whether a token is the tag of a section. -/
def Token.isSection (t : Token) : Bool :=
  match t.kind with
  | .opening | .inverted | .closing => true
  | _ => false

/-- Whether a token opens a section. -/
def Token.opens (t : Token) : Bool :=
  t.kind = .opening || t.kind = .inverted

theorem Token.isSection_of_opens {t : Token} (h : t.opens = true) :
    t.isSection = true := by
  unfold Token.opens at h
  unfold Token.isSection
  split <;> simp_all

namespace Node

/-- Induction over nodes one after another: past literal text and references, and
into the body of a section. -/
theorem inductAll {motive : List Node → Prop} (nil : motive [])
    (text : ∀ s ns, motive ns → motive (.text s :: ns))
    (reference : ∀ t ns, motive ns → motive (.reference t :: ns))
    (block : ∀ tag body ns, motive body → motive ns → motive (.block tag body :: ns))
    (ns : List Node) : motive ns :=
  Node.rec_1 (motive_1 := fun n => ∀ ns, motive ns → motive (n :: ns)) (motive_2 := motive)
    text reference (fun tag body hbody ns => block tag body ns hbody) nil
    (fun _ ns hn hns => hn ns hns) ns

mutual

/-- The references of a node, in order. -/
def references : Node → List Token
  | .text _ => []
  | .reference t => [t]
  | .block _ body => referencesAll body

/-- The references of nodes one after another. -/
def referencesAll : List Node → List Token
  | [] => []
  | n :: ns => references n ++ referencesAll ns

end

@[simp] theorem referencesAll_nil : referencesAll [] = [] := rfl

@[simp] theorem referencesAll_cons (n : Node) (ns : List Node) :
    referencesAll (n :: ns) = n.references ++ referencesAll ns := rfl

@[simp] theorem references_text (s : Text) : references (.text s) = [] := rfl

@[simp] theorem references_reference (t : Token) : references (.reference t) = [t] := rfl

@[simp] theorem references_block (tag : Token) (body : List Node) :
    references (.block tag body) = referencesAll body := rfl

@[simp] theorem referencesAll_append (ms ns : List Node) :
    referencesAll (ms ++ ns) = referencesAll ms ++ referencesAll ns := by
  induction ms with
  | nil => rfl
  | cons m ms ih => simp [ih]

@[simp] theorem referencesAll_literal (s : Text) : referencesAll (literal s) = [] := by
  unfold literal
  split <;> rfl

theorem mem_referencesAll {t : Token} {ns : List Node} (h : .reference t ∈ ns) :
    t ∈ referencesAll ns := by
  induction ns with
  | nil => simp at h
  | cons n ns ih =>
    rw [referencesAll_cons, List.mem_append]
    rcases List.mem_cons.mp h with rfl | h
    · exact .inl List.mem_cons_self
    · exact .inr (ih h)

/-- Whether none of the nodes is a section. -/
def Flat (ns : List Node) : Prop :=
  ∀ tag body, Node.block tag body ∉ ns

theorem flat_nil : Flat [] := fun _ _ => List.not_mem_nil

theorem Flat.append {ms ns : List Node} (hm : Flat ms) (hn : Flat ns) : Flat (ms ++ ns) :=
  fun tag body h => (List.mem_append.mp h).elim (hm tag body) (hn tag body)

theorem Flat.tail {n : Node} {ns : List Node} (h : Flat (n :: ns)) : Flat ns :=
  fun tag body hmem => h tag body (List.mem_cons_of_mem _ hmem)

theorem flat_literal (s : Text) : Flat (literal s) := by
  intro tag body h
  unfold literal at h
  split at h <;> simp at h

theorem flat_reference (t : Token) : Flat [reference t] := by
  intro tag body h
  simp at h

/-! ### Parsing -/

mutual

/-- The references of a node and the opening tags of its sections, in order. -/
def tokens : Node → List Token
  | .text _ => []
  | .reference t => [t]
  | .block tag body => tag :: tokensAll body

/-- The tokens of nodes in a row, with those of the sections and of what is in them. -/
def tokensAll : List Node → List Token
  | [] => []
  | n :: ns => tokens n ++ tokensAll ns

end

mutual

/-- Whether references are no tags, and sections stand under tags that open them. -/
def Proper : Node → Prop
  | .text _ => True
  | .reference t => t.isSection = false
  | .block tag body => tag.opens = true ∧ ProperAll body

/-- Every one of the nodes is proper. -/
def ProperAll : List Node → Prop
  | [] => True
  | n :: ns => Proper n ∧ ProperAll ns

end

@[simp] theorem tokensAll_nil : tokensAll [] = [] := rfl

@[simp] theorem tokensAll_cons (n : Node) (ns : List Node) :
    tokensAll (n :: ns) = n.tokens ++ tokensAll ns := rfl

@[simp] theorem tokensAll_append (ms ns : List Node) :
    tokensAll (ms ++ ns) = tokensAll ms ++ tokensAll ns := by
  induction ms with
  | nil => rfl
  | cons m ms ih => simp [ih]

@[simp] theorem tokensAll_literal (s : Text) : tokensAll (literal s) = [] := by
  unfold literal
  split <;> rfl

theorem ProperAll.append {ms ns : List Node} (hm : ProperAll ms) (hn : ProperAll ns) :
    ProperAll (ms ++ ns) := by
  induction ms with
  | nil => exact hn
  | cons m ms ih => exact ⟨hm.1, ih hm.2⟩

theorem properAll_literal (s : Text) : ProperAll (literal s) := by
  unfold literal
  split
  · trivial
  · exact ⟨trivial, trivial⟩

theorem ProperAll.append_literal {ns : List Node} (h : ProperAll ns) (s : Text) :
    ProperAll (ns ++ literal s) :=
  h.append (properAll_literal s)

theorem properAll_singleton {n : Node} (h : Proper n) : ProperAll [n] :=
  ⟨h, trivial⟩

/-- Of proper nodes, the references are the tokens that are no tags. -/
theorem referencesAll_eq_filter {ns : List Node} (h : ProperAll ns) :
    referencesAll ns = (tokensAll ns).filter fun t => !t.isSection := by
  induction ns using inductAll with
  | nil => rfl
  | text s ns ih => exact ih h.2
  | reference t ns ih =>
    have ht : t.isSection = false := h.1
    simp [tokens, ih h.2, ht]
  | block tag body ns hbody ih =>
    have htag : tag.isSection = true := Token.isSection_of_opens h.1.1
    simp [tokens, hbody h.1.2, ih h.2, htag]

/-- `Builds nodes outer body segments`: parsing goes on from the open sections `outer`
and the body so far to `nodes`, one segment after another. -/
inductive Builds (nodes : List Node) : List (Token × List Node) → List Node → Segments → Prop
  | last {body : List Node} {s : Text} (h : body ++ literal s = nodes) :
      Builds nodes [] body (.last s)
  | opening {outer : List (Token × List Node)} {body : List Node} {gap : Text} {t : Token}
      {rest : Segments} (ht : t.opens = true)
      (h : Builds nodes ((t, body ++ literal gap) :: outer) [] rest) :
      Builds nodes outer body (.before gap t rest)
  | closing {outer : List (Token × List Node)} {before body : List Node} {gap : Text}
      {tag t : Token} {rest : Segments} (ht : t.kind = .closing) (hname : name tag = name t)
      (h : Builds nodes outer (before ++ [block tag (body ++ literal gap)]) rest) :
      Builds nodes ((tag, before) :: outer) body (.before gap t rest)
  | reference {outer : List (Token × List Node)} {body : List Node} {gap : Text} {t : Token}
      {rest : Segments} (ht : t.isSection = false)
      (h : Builds nodes outer (body ++ literal gap ++ [reference t]) rest) :
      Builds nodes outer body (.before gap t rest)

/-- Parsing that ends well is made of such steps. -/
theorem builds_of_build {outer : List (Token × List Node)} {body nodes : List Node}
    {segments : Segments} (h : build outer body segments = .ok nodes) :
    Builds nodes outer body segments := by
  induction segments generalizing outer body with
  | last s =>
    rcases outer with _ | ⟨⟨tag, before⟩, outer⟩
    · exact .last (Except.ok.inj h)
    · simp [build] at h
  | before gap t rest ih =>
    unfold build at h
    rcases hk : t.kind
    case closing =>
      simp only [hk] at h
      rcases outer with _ | ⟨⟨tag, before⟩, outer⟩
      · simp at h
      · by_cases hname : name tag = name t
        · simp only [hname, if_true] at h
          exact .closing hk hname (ih h)
        · simp [hname] at h
    case opening | inverted =>
      simp only [hk] at h
      have ht : t.opens = true := by simp [Token.opens, hk]
      exact .opening ht (ih h)
    all_goals
      simp only [hk] at h
      have ht : t.isSection = false := by simp [Token.isSection, hk]
      exact .reference ht (ih h)

theorem kind_ne_closing_of_opens {t : Token} (h : t.opens = true) : t.kind ≠ .closing := by
  intro hk
  simp [Token.opens, hk] at h

theorem kind_ne_closing_of_not_section {t : Token} (h : t.isSection = false) :
    t.kind ≠ .closing := by
  intro hk
  simp [Token.isSection, hk] at h

/-- The tokens before the body that is read: those before the open sections, each with
the tag behind them. -/
def openTokens : (outer : List (Token × List Node)) → List Token
  | [] => []
  | (tag, before) :: outer => openTokens outer ++ tokensAll before ++ [tag]

/-- Parsing loses no token but the closing tags, and finds no other. -/
theorem Builds.tokensAll_eq {outer : List (Token × List Node)} {body nodes : List Node}
    {segments : Segments} (h : Builds nodes outer body segments) :
    tokensAll nodes =
      openTokens outer ++ tokensAll body ++
        segments.tokens.filter fun t => t.kind ≠ .closing := by
  induction h with
  | last hnodes => simp [← hnodes, openTokens, Segments.tokens]
  | opening ht _ ih => simpa [openTokens, Segments.tokens, kind_ne_closing_of_opens ht] using ih
  | closing ht _ _ ih =>
    -- The section moves from those that are open to the body around it.
    simpa [openTokens, Segments.tokens, tokens, ht] using ih
  | reference ht _ ih =>
    simpa [Segments.tokens, tokens, kind_ne_closing_of_not_section ht] using ih

/-- Parsing puts every token where its kind belongs. -/
theorem Builds.proper {outer : List (Token × List Node)} {body nodes : List Node}
    {segments : Segments} (h : Builds nodes outer body segments)
    (houter : ∀ o ∈ outer, o.1.opens = true ∧ ProperAll o.2) (hbody : ProperAll body) :
    ProperAll nodes := by
  induction h with
  | @last body s hnodes => exact hnodes ▸ hbody.append_literal s
  | @opening outer body gap t rest ht _ ih =>
    exact ih (List.forall_mem_cons.mpr ⟨⟨ht, hbody.append_literal gap⟩, houter⟩) trivial
  | @closing outer before body gap tag t rest _ _ _ ih =>
    obtain ⟨⟨htag, hbefore⟩, houter⟩ := List.forall_mem_cons.mp houter
    have hblock : ProperAll [block tag (body ++ literal gap)] :=
      properAll_singleton ⟨htag, hbody.append_literal gap⟩
    exact ih houter (hbefore.append hblock)
  | @reference outer body gap t rest ht _ ih =>
    exact ih houter ((hbody.append_literal gap).append (properAll_singleton ht))

/-- A token that is no tag of a section becomes a reference. -/
theorem build_reference {outer : List (Token × List Node)} {body : List Node} {gap : Text}
    {t : Token} {rest : Segments} (ht : t.isSection = false) :
    build outer body (.before gap t rest) =
      build outer (body ++ literal gap ++ [reference t]) rest := by
  cases hk : t.kind with
  | opening | inverted | closing => simp [Token.isSection, hk] at ht
  | _ => simp only [build, hk]

end Node

/-- The segments as nodes, with a reference for every token. -/
def Segments.nodes : Segments → List Node
  | .last s => Node.literal s
  | .before gap t rest => Node.literal gap ++ .reference t :: rest.nodes

namespace Node

theorem flat_nodes (segments : Segments) : Flat segments.nodes := by
  induction segments with
  | last s => exact flat_literal s
  | before gap t rest ih => exact (flat_literal gap).append ((flat_reference t).append ih)

/-- Segments without tags of sections are parsed one by one. -/
theorem build_eq_nodes {body : List Node} {segments : Segments}
    (h : ∀ t ∈ segments.tokens, t.isSection = false) :
    build [] body segments = .ok (body ++ segments.nodes) := by
  induction segments generalizing body with
  | last s => rfl
  | before gap t rest ih =>
    obtain ⟨ht, hrest⟩ := List.forall_mem_cons.mp h
    rw [build_reference ht, ih hrest, Segments.nodes]
    simp

end Node

theorem Template.build_of_parse {source : Text} {template : Template}
    (h : Template.parse source = .ok template) :
    Node.build [] [] (placeholders source) = .ok template.nodes := by
  unfold Template.parse at h
  rcases hb : Node.build [] [] (placeholders source) with m | nodes
  · simp [hb, bind, Except.bind] at h
  · obtain rfl : (⟨nodes⟩ : Template) = template := by simpa [hb, bind, Except.bind] using h
    rfl

theorem Template.builds_of_parse {source : Text} {template : Template}
    (h : Template.parse source = .ok template) :
    Node.Builds template.nodes [] [] (placeholders source) :=
  Node.builds_of_build (Template.build_of_parse h)

theorem Template.proper_parse {source : Text} {template : Template}
    (h : Template.parse source = .ok template) : Node.ProperAll template.nodes :=
  (Template.builds_of_parse h).proper (fun _ ho => absurd ho List.not_mem_nil) trivial

/-- **The tokens of a template** are those of its text, but for the closing tags. -/
theorem Template.tokens_parse {source : Text} {template : Template}
    (h : Template.parse source = .ok template) :
    Node.tokensAll template.nodes =
      (placeholders source).tokens.filter fun t => t.kind ≠ .closing := by
  simpa [Node.openTokens] using (Template.builds_of_parse h).tokensAll_eq

/-- **The references of a template** are the tokens of its text that are no tags of
sections. -/
theorem Template.references_parse {source : Text} {template : Template}
    (h : Template.parse source = .ok template) :
    Node.referencesAll template.nodes =
      (placeholders source).tokens.filter fun t => !t.isSection := by
  rw [Node.referencesAll_eq_filter (Template.proper_parse h), Template.tokens_parse h,
    List.filter_filter]
  -- A closing tag is a tag.
  refine List.filter_congr fun t _ => ?_
  rcases hk : t.kind <;> simp [Token.isSection, hk]

/-- A text without tags of sections is a template with a reference for every token. -/
theorem Template.parse_eq_nodes {source : Text}
    (h : ∀ t ∈ (placeholders source).tokens, t.isSection = false) :
    Template.parse source = .ok ⟨(placeholders source).nodes⟩ := by
  simp [Template.parse, Node.build_eq_nodes h, bind, Except.bind]

theorem Template.parse_flat {source : Text}
    (h : ∀ t ∈ (placeholders source).tokens, t.isSection = false) :
    ∃ template, Template.parse source = .ok template ∧ Node.Flat template.nodes :=
  ⟨_, Template.parse_eq_nodes h, Node.flat_nodes _⟩

/-! ### The first missing value -/

namespace Context

theorem find_eq_ok_iff {frames : Context} {path : Text} {t : Tree} :
    frames.find path = .ok t ↔ frames.lookup path = some t := by
  unfold find
  split <;> simp_all

theorem resolve_of_resolvePath {frames : Context} {p : Path} {key : Text}
    (h : frames.resolvePath p = .ok key) : frames.resolve p = frames.find key := by
  simp [resolve, h, bind, Except.bind]

theorem resolve_of_resolvePath_error {frames : Context} {p : Path} {m : Missing}
    (h : frames.resolvePath p = .error m) : frames.resolve p = .error m := by
  simp [resolve, h, bind, Except.bind]

theorem exists_key_of_resolve {frames : Context} {p : Path} {v : Tree}
    (h : frames.resolve p = .ok v) :
    ∃ key, frames.resolvePath p = .ok key ∧ frames.lookup key = some v := by
  rcases hp : frames.resolvePath p with m | key
  · rw [resolve_of_resolvePath_error hp] at h
    exact absurd h (by simp)
  · rw [resolve_of_resolvePath hp] at h
    exact ⟨key, rfl, find_eq_ok_iff.mp h⟩

/-- A plain path stands for itself without the blanks around it. -/
theorem resolvePath_literal (frames : Context) (u : Text) :
    frames.resolvePath (.literal u) = .ok u.trim := by
  simp [Path.literal, resolvePath, splice, bind, Except.bind]

/-- The path that leads nowhere when a path is resolved, if there is one. -/
def missing? (frames : Context) (p : Path) : Option Missing :=
  match frames.resolve p with
  | .ok _ => none
  | .error m => some m

/-- The first path that leads nowhere among those of references. -/
def firstMissing (frames : Context) (ts : List Token) : Option Missing :=
  ts.findSome? fun t => frames.missing? t.path

theorem missing?_eq_none_iff {frames : Context} {p : Path} :
    frames.missing? p = none ↔ ∃ t, frames.resolve p = .ok t := by
  unfold missing?
  split <;> simp_all

theorem firstMissing_eq_none_iff {frames : Context} {ts : List Token} :
    frames.firstMissing ts = none ↔ ∀ t ∈ ts, ∃ v, frames.resolve t.path = .ok v := by
  simp [firstMissing, missing?_eq_none_iff]

end Context

/-- The outcome of a search for a missing value. -/
def Missing.outcome : Option Missing → Except Missing Unit
  | none => .ok ()
  | some m => .error m

theorem Missing.outcome_eq_ok_iff {o : Option Missing} : outcome o = .ok () ↔ o = none := by
  cases o <;> simp [outcome]

/-- The references outside sections. -/
def Node.outside (ns : List Node) : List Token :=
  ns.flatMap fun
    | .reference t => [t]
    | _ => []

theorem Node.mem_outside {t : Token} {ns : List Node} :
    t ∈ Node.outside ns ↔ .reference t ∈ ns := by
  unfold outside
  rw [List.mem_flatMap]
  constructor
  · rintro ⟨n, hn, ht⟩
    split at ht
    · rwa [List.mem_singleton.mp ht]
    · simp at ht
  · intro h
    exact ⟨_, h, List.mem_cons_self⟩

theorem Node.Flat.outside_eq {ns : List Node} (h : Node.Flat ns) :
    Node.outside ns = Node.referencesAll ns := by
  induction ns with
  | nil => rfl
  | cons n ns ih =>
    have hrest := ih h.tail
    cases n with
    | text s => exact hrest
    | reference t => exact congrArg (t :: ·) hrest
    | block tag body => exact absurd List.mem_cons_self (h tag body)

/-- **Verifying stops at the first missing value** outside the sections. -/
theorem Template.verify_eq (template : Template) (config : Tree) :
    template.verify config =
      Missing.outcome (Context.firstMissing [config] (Node.outside template.nodes)) := by
  unfold Template.verify
  induction template.nodes with
  | nil => rfl
  | cons n ns ih =>
    rw [show (n :: ns).forM (Node.verify config) =
        (Node.verify config n >>= fun _ => ns.forM (Node.verify config)) from rfl, ih]
    cases n with
    | text s => rfl
    | block tag body => rfl
    | reference t =>
      rcases hr : Context.resolve [config] t.path with m | v
      · simp [Node.verify, Node.outside, Context.firstMissing, Context.missing?, hr, bind,
          Except.bind, Missing.outcome]
      · simp [Node.verify, Node.outside, Context.firstMissing, Context.missing?, hr, bind,
          Except.bind]

theorem Template.verify_ok_iff (template : Template) (config : Tree) :
    template.verify config = .ok () ↔
      ∀ t ∈ Node.outside template.nodes, ∃ v, Context.resolve [config] t.path = .ok v := by
  rw [verify_eq, Missing.outcome_eq_ok_iff, Context.firstMissing_eq_none_iff]

end ConfigTemplate
