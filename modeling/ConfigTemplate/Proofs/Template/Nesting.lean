/-
Which texts are templates.

Only the tags of sections decide whether a text parses.  `Balanced` is the grammar of
well nested tags, and `Leaves` says which sections a beginning of the tags leaves open;
neither has a stack machine in it.

* `parse_error_iff`: parsing fails with what reading the tags with a stack stumbles on;
* `nestingFault_append_balanced`: well nested tags leave the stack as it was;
* `Leaves.settle`: behind any beginning of the tags, the rest completes a well nested
  text or is at fault;
* `parse_by_nesting`: a text parses exactly if its tags are well nested, and otherwise
  parsing names the first tag that is at fault.

Design notes: `nestingFault` is the parser without its nodes.  The grammar is related to
it in both directions, so that the grammar need not be shown to be unambiguous.
-/
import ConfigTemplate.Proofs.Template.References

namespace ConfigTemplate

/-- The tags of sections in a text, in order. -/
def sectionTags (source : Text) : List Token :=
  (placeholders source).tokens.filter Token.isSection

namespace Node

/-- Whether tags are well nested: each section that they open is closed by a tag of its
name, behind the sections in it. -/
inductive Balanced : List Token → Prop
  | nil : Balanced []
  | block {tag t : Token} {inner rest : List Token} (hopens : tag.opens = true)
      (hinner : Balanced inner) (ht : t.kind = .closing) (hname : name tag = name t)
      (hrest : Balanced rest) : Balanced (tag :: (inner ++ t :: rest))

/-- `Leaves tags opened`: the tags are well nested, but for the tags `opened` among them,
the innermost first, whose sections are still open. -/
inductive Leaves : (tags opened : List Token) → Prop
  | nothing {tags : List Token} (h : Balanced tags) : Leaves tags []
  | inside {tags opened inner : List Token} {tag : Token} (h : Leaves tags opened)
      (hopens : tag.opens = true) (hinner : Balanced inner) :
      Leaves (tags ++ tag :: inner) (tag :: opened)

/-- What is at fault with tags that are not well nested: the first closing tag that
closes no section or one of another name, or else the innermost section that is open at
the end. -/
inductive Misnested (tags : List Token) : Fault → Prop
  | unopened {before after : List Token} {t : Token} (htags : tags = before ++ t :: after)
      (hbefore : Leaves before []) (ht : t.kind = .closing) :
      Misnested tags (.unopened (name t) t.line)
  | mismatched {before after opened : List Token} {tag t : Token}
      (htags : tags = before ++ t :: after) (hbefore : Leaves before (tag :: opened))
      (ht : t.kind = .closing) (hname : name tag ≠ name t) :
      Misnested tags (.mismatched (name tag) (name t) t.line)
  | unclosed {opened : List Token} {tag : Token} (h : Leaves tags (tag :: opened)) :
      Misnested tags (.unclosed (name tag) tag.line)

theorem Balanced.append {ms ns : List Token} (hm : Balanced ms) (hn : Balanced ns) :
    Balanced (ms ++ ns) := by
  induction hm with
  | nil => exact hn
  | @block tag t inner rest hopens hinner ht hname _ _ ih =>
    rw [List.cons_append, List.append_assoc, List.cons_append]
    exact .block hopens hinner ht hname ih

theorem Leaves.balanced {tags : List Token} (h : Leaves tags []) : Balanced tags := by
  cases h with
  | nothing h => exact h

/-- A section is opened. -/
theorem Leaves.push {tags opened : List Token} {t : Token} (h : Leaves tags opened)
    (hopens : t.opens = true) : Leaves (tags ++ [t]) (t :: opened) :=
  .inside h hopens .nil

/-- The innermost section is closed, and becomes a well nested part of what it stands in. -/
theorem Leaves.pop {tags opened : List Token} {tag t : Token} (h : Leaves tags (tag :: opened))
    (ht : t.kind = .closing) (hname : name tag = name t) : Leaves (tags ++ [t]) opened := by
  cases h with
  | @inside before _ inner _ hbefore hopens hinner =>
    have hblock : Balanced (tag :: (inner ++ [t])) := .block hopens hinner ht hname .nil
    rw [List.append_assoc, List.cons_append]
    cases hbefore with
    | nothing hbefore => exact .nothing (hbefore.append hblock)
    | inside h' hopens' hinner' =>
      rw [List.append_assoc, List.cons_append]
      exact .inside h' hopens' (hinner'.append hblock)

/-! ### Reading tags with a stack -/

/-- The fault that is met when the tags behind the open sections `opened` are read. -/
def nestingFault : (opened tags : List Token) → Option Fault
  | opened, [] => opened.head?.map fun tag => .unclosed (name tag) tag.line
  | opened, t :: tags =>
    if t.opens then nestingFault (t :: opened) tags
    else match opened with
      | [] => some (.unopened (name t) t.line)
      | tag :: opened =>
        if name tag = name t then nestingFault opened tags
        else some (.mismatched (name tag) (name t) t.line)

theorem nestingFault_opening {t : Token} (ht : t.opens = true) (opened tags : List Token) :
    nestingFault opened (t :: tags) = nestingFault (t :: opened) tags := by
  simp [nestingFault, ht]

theorem nestingFault_unopened {t : Token} (ht : t.opens = false) (tags : List Token) :
    nestingFault [] (t :: tags) = some (.unopened (name t) t.line) := by
  simp [nestingFault, ht]

theorem nestingFault_closing {tag t : Token} (ht : t.opens = false) (hname : name tag = name t)
    (opened tags : List Token) :
    nestingFault (tag :: opened) (t :: tags) = nestingFault opened tags := by
  simp [nestingFault, ht, hname]

theorem nestingFault_mismatched {tag t : Token} (ht : t.opens = false)
    (hname : name tag ≠ name t) (opened tags : List Token) :
    nestingFault (tag :: opened) (t :: tags) =
      some (.mismatched (name tag) (name t) t.line) := by
  simp [nestingFault, ht, hname]

theorem opens_eq_false_of_closing {t : Token} (h : t.kind = .closing) : t.opens = false := by
  simp [Token.opens, h]

/-- A tag that opens no section closes one. -/
theorem kind_eq_closing {t : Token} (h : t.isSection = true) (ht : t.opens = false) :
    t.kind = .closing := by
  rcases hk : t.kind <;> simp_all [Token.isSection, Token.opens]

/-- Building nodes fails with the fault that the tags have. -/
theorem build_error_iff {outer : List (Token × List Node)} {body : List Node}
    {segments : Segments} {fault : Fault} :
    build outer body segments = .error fault ↔
      nestingFault (outer.map Prod.fst) (segments.tokens.filter Token.isSection) =
        some fault := by
  induction segments generalizing outer body with
  | last s =>
    rcases outer with _ | ⟨⟨tag, before⟩, outer⟩ <;>
      simp [build, nestingFault, Segments.tokens]
  | before gap t rest ih =>
    unfold build
    rcases hk : t.kind
    case closing =>
      have hsection : t.isSection = true := by simp [Token.isSection, hk]
      have ht := opens_eq_false_of_closing hk
      rw [Segments.tokens, List.filter_cons_of_pos hsection]
      rcases outer with _ | ⟨⟨tag, before⟩, outer⟩
      · simp [nestingFault_unopened ht]
      · by_cases hname : name tag = name t
        · simp [hname, nestingFault_closing ht hname, ih]
        · simp [hname, nestingFault_mismatched ht hname]
    case opening | inverted =>
      have ht : t.opens = true := by simp [Token.opens, hk]
      rw [Segments.tokens, List.filter_cons_of_pos (Token.isSection_of_opens ht),
        nestingFault_opening ht]
      simp [ih]
    all_goals
      have hsection : ¬ t.isSection = true := by simp [Token.isSection, hk]
      rw [Segments.tokens, List.filter_cons_of_neg hsection]
      simp [ih]

/-! ### The grammar and the stack -/

/-- Well nested tags leave the stack as it was. -/
theorem nestingFault_append_balanced {tags : List Token} (h : Balanced tags)
    (opened rest : List Token) :
    nestingFault opened (tags ++ rest) = nestingFault opened rest := by
  induction h generalizing opened rest with
  | nil => rfl
  | @block tag t inner more hopens _ ht hname _ ihinner ihmore =>
    rw [List.cons_append, List.append_assoc, List.cons_append, nestingFault_opening hopens,
      ihinner, nestingFault_closing (opens_eq_false_of_closing ht) hname, ihmore]

/-- The tags that a beginning leaves open are on the stack behind it. -/
theorem nestingFault_append_leaves {tags opened : List Token} (h : Leaves tags opened)
    (rest : List Token) : nestingFault [] (tags ++ rest) = nestingFault opened rest := by
  induction h generalizing rest with
  | nothing h => exact nestingFault_append_balanced h [] rest
  | inside _ hopens hinner ih =>
    rw [List.append_assoc, List.cons_append, ih, nestingFault_opening hopens,
      nestingFault_append_balanced hinner]

theorem Balanced.nestingFault_eq {tags : List Token} (h : Balanced tags) :
    nestingFault [] tags = none := by
  have key := nestingFault_append_balanced h [] []
  rwa [List.append_nil] at key

theorem Misnested.nestingFault_eq {tags : List Token} {fault : Fault}
    (h : Misnested tags fault) : nestingFault [] tags = some fault := by
  cases h with
  | unopened htags hbefore ht =>
    rw [htags, nestingFault_append_leaves hbefore,
      nestingFault_unopened (opens_eq_false_of_closing ht)]
  | mismatched htags hbefore ht hname =>
    rw [htags, nestingFault_append_leaves hbefore,
      nestingFault_mismatched (opens_eq_false_of_closing ht) hname]
  | unclosed h =>
    have key := nestingFault_append_leaves h []
    rwa [List.append_nil] at key

/-- What the tags come to, if there is this fault or none. -/
def Settled (tags : List Token) : Option Fault → Prop
  | none => Balanced tags
  | some fault => Misnested tags fault

/-- **Behind any beginning of the tags**, the fault that the rest meets is the fault of
them all. -/
theorem Leaves.settle {tags opened rest : List Token} (h : Leaves tags opened)
    (hrest : ∀ t ∈ rest, t.isSection = true) :
    Settled (tags ++ rest) (nestingFault opened rest) := by
  induction rest generalizing tags opened with
  | nil =>
    rw [List.append_nil]
    rcases opened with _ | ⟨tag, opened⟩
    · exact h.balanced
    · exact .unclosed h
  | cons t rest ih =>
    obtain ⟨htag, hrest⟩ := List.forall_mem_cons.mp hrest
    have hmove : tags ++ t :: rest = (tags ++ [t]) ++ rest := by simp
    rcases ht : t.opens with _ | _
    · have hk := kind_eq_closing htag ht
      rcases opened with _ | ⟨tag, opened⟩
      · rw [nestingFault_unopened ht]
        exact .unopened rfl h hk
      · by_cases hname : name tag = name t
        · rw [nestingFault_closing ht hname, hmove]
          exact ih (h.pop hk hname) hrest
        · rw [nestingFault_mismatched ht hname]
          exact .mismatched rfl h hk hname
    · rw [nestingFault_opening ht, hmove]
      exact ih (h.push ht) hrest

end Node

/-- Parsing fails with the fault that is met when the tags of the text are read. -/
theorem Template.parse_error_iff {source : Text} {fault : Fault} :
    Template.parse source = .error fault ↔
      Node.nestingFault [] (sectionTags source) = some fault := by
  have hbuild := @Node.build_error_iff [] [] (placeholders source) fault
  rw [List.map_nil] at hbuild
  rw [sectionTags, ← hbuild, Template.parse]
  rcases Node.build [] [] (placeholders source) with m | nodes <;> simp [bind, Except.bind]

theorem Template.parse_ok_iff {source : Text} :
    (∃ template, Template.parse source = .ok template) ↔
      Node.nestingFault [] (sectionTags source) = none := by
  rw [Option.eq_none_iff_forall_ne_some]
  constructor
  · rintro ⟨template, h⟩ fault hfault
    rw [Template.parse_error_iff.mpr hfault] at h
    exact absurd h (by simp)
  · intro h
    rcases hp : Template.parse source with fault | template
    · exact absurd (Template.parse_error_iff.mp hp) (h fault)
    · exact ⟨template, rfl⟩

/-- **Which texts are templates.**  A text parses if and only if its tags are well
nested.  Otherwise parsing fails with what is at fault: the first closing tag that closes
no section or one of another name, on the line of that tag, or else the innermost section
that is open at the end, on the line of its own tag. -/
theorem parse_by_nesting (source : Text) :
    ((∃ template, Template.parse source = .ok template) ↔
      Node.Balanced (sectionTags source)) ∧
    (∀ fault, Template.parse source = .error fault ↔
      Node.Misnested (sectionTags source) fault) ∧
    ∀ (name closed : Text) (line : Nat),
      (Fault.unopened name line).summary =
        "Parse error on line ".toList ++ Decimal.natText line ++ ": ".toList ++
          ("Unopened section ".toList ++ Fault.quoted name) ∧
      (Fault.mismatched name closed line).summary =
        "Parse error on line ".toList ++ Decimal.natText line ++ ": ".toList ++
          ("Unclosed section ".toList ++ Fault.quoted name ++ " (found ".toList ++
            Fault.quoted closed ++ [')']) ∧
      (Fault.unclosed name line).summary =
        "Parse error on line ".toList ++ Decimal.natText line ++ ": ".toList ++
          ("Unclosed section ".toList ++ Fault.quoted name) := by
  have htags : ∀ t ∈ sectionTags source, t.isSection = true := fun t ht =>
    (List.mem_filter.mp ht).2
  have hsettled : Node.Settled (sectionTags source)
      (Node.nestingFault [] (sectionTags source)) :=
    (Node.Leaves.nothing .nil).settle htags
  refine ⟨?_, fun fault => ?_, fun _ _ _ => ⟨rfl, rfl, rfl⟩⟩
  · rw [Template.parse_ok_iff]
    refine ⟨fun h => ?_, Node.Balanced.nestingFault_eq⟩
    rwa [h] at hsettled
  · rw [Template.parse_error_iff]
    refine ⟨fun h => ?_, Node.Misnested.nestingFault_eq⟩
    rwa [h] at hsettled

end ConfigTemplate
