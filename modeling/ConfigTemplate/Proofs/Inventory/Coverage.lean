/-
What an inventory covers.

The required and optional keys of a template, extracted without a configuration, are
all that rendering can tell of one: `render_congr_of_extract` says that two
configurations with the same trees at these keys render alike, to the same output or
the same fault.
-/
import ConfigTemplate.Proofs.Inventory.Keys
import ConfigTemplate.Proofs.Inventory.Preflight
import ConfigTemplate.Proofs.Template.Agreement

namespace ConfigTemplate

/-- The keys of a template that a configuration may be asked for. -/
def extractedKeys (source : Text) : List Text :=
  (extract .placeholders source none).required.keys ++
    (extract .placeholders source none).optional.keys

section

variable {source : Text} {t : Token}

/-- A plain reference that is not to the innermost tree is extracted. -/
theorem mem_extractedKeys_of_reference (ht : t ∈ (placeholders source).tokens)
    (hplain : t.path.isNested = false) (hs : t.isSection = false)
    (hraw : t.path.raw ≠ Context.current) : t.path.raw ∈ extractedKeys source := by
  obtain ⟨u, hu⟩ := literal_of_not_nested ht hplain
  have hrequired : Context.requiredBy (.ofConfig none) t = [t.path.raw] :=
    Context.requiredBy_literal hu hs hraw _
  refine List.mem_append_left _ (mem_required_extract_iff.mpr ⟨t, ht, ?_⟩)
  rw [hrequired]
  exact List.mem_singleton_self _

/-- The name of a section is extracted. -/
theorem mem_extractedKeys_of_opens (ht : t ∈ (placeholders source).tokens)
    (hopens : t.opens = true) : t.path.raw ∈ extractedKeys source :=
  List.mem_append_right _ (mem_optional_extract_iff.mpr ⟨t, ht, hopens, rfl⟩)

/-- Configurations with the same trees at the extracted keys agree on all names that
the parsed template looks up. -/
theorem agree_of_extract {c d : Tree} {template : Template}
    (hplain : ∀ t ∈ (placeholders source).tokens, t.path.isNested = false)
    (hsame : ∀ key ∈ extractedKeys source, Context.lookup [c] key = Context.lookup [d] key)
    (hparse : Template.parse source = .ok template) : Node.Agree c d template.nodes := by
  have htokens : ∀ t ∈ Node.tokensAll template.nodes,
      t ∈ (placeholders source).tokens ∧ t.kind ≠ .closing := by
    intro t ht
    rw [Template.tokens_parse hparse, List.mem_filter] at ht
    exact ⟨ht.1, by simpa using ht.2⟩
  refine ⟨fun t ht => literal_of_not_nested (htokens t ht).1 (hplain t (htokens t ht).1),
    fun t ht hname => hsame _ ?_⟩
  obtain ⟨hmem, hclosing⟩ := htokens t ht
  rcases ho : t.opens with _ | _
  · -- A token that neither opens nor closes a section is a reference.
    have hraw : t.path.raw ≠ Context.current := hname.resolve_left (by simp [ho])
    have hs : t.isSection = false := by
      unfold Token.isSection
      split <;> simp_all [Token.opens]
    exact mem_extractedKeys_of_reference hmem (hplain t hmem) hs hraw
  · exact mem_extractedKeys_of_opens hmem ho

end

/-- **The extracted keys are all that a template can tell of a configuration.**  If no
reference is nested in another and every `.` stands in a section that is not inverted,
then two configurations with the same trees at the extracted keys render alike. -/
theorem render_congr_of_extract {source : Text} {c d : Tree}
    (hplain : ∀ t ∈ (placeholders source).tokens, t.path.isNested = false)
    (hguard : ∀ template, Template.parse source = .ok template → Node.GuardedAll template.nodes)
    (hsame : ∀ key ∈ extractedKeys source, Context.lookup [c] key = Context.lookup [d] key) :
    render source c = render source d := by
  rcases hparse : Template.parse source with f | template
  · -- Without a template there is nothing to render, whatever the configuration.
    simp [render, hparse, bind, Except.bind]
  · have hagree := agree_of_extract hplain hsame hparse
    rw [render_of_parse hparse, render_of_parse hparse,
      Template.render_congr (Template.proper_parse hparse) hagree (hguard template hparse)]

/-! ### A section over a list -/

/-- A section over `s` that draws its item and `a.b`. -/
def coveredSource : Text :=
  "\x7b\x7b#s\x7d\x7d\x7b\x7b.\x7d\x7d\x7b\x7b a.b \x7d\x7d\x7b\x7b/s\x7d\x7d".toList

/-- The template parsed. -/
def coveredTemplate : Template :=
  ⟨[.block ⟨.opening, .literal "s".toList, "\x7b\x7b#s\x7d\x7d".toList, ⟨1, 0⟩⟩
    [.reference ⟨.name, .literal ".".toList, "\x7b\x7b.\x7d\x7d".toList, ⟨1, 6⟩⟩,
      .reference ⟨.name, .literal "a.b ".toList, "\x7b\x7b a.b \x7d\x7d".toList, ⟨1, 11⟩⟩]]⟩

/-- A configuration with nothing but what is drawn. -/
def bareConfig : Tree :=
  .map [("s".toList, .list [.string "p".toList, .null]),
    ("a".toList, .map [("b".toList, .string "x".toList)])]

/-- A configuration with the same at `s` and `a.b`, in another order and with more
beside them. -/
def richConfig : Tree :=
  .map [("z".toList, .bool true),
    ("a".toList, .map [("c".toList, .null), ("b".toList, .string "x".toList)]),
    ("s".toList, .list [.string "p".toList, .null])]

/-- The two configurations render alike. -/
theorem render_bareConfig_eq :
    render coveredSource bareConfig = render coveredSource richConfig := by
  have hparse : Template.parse coveredSource = .ok coveredTemplate := by decide +kernel
  have hkeys : extractedKeys coveredSource = ["a.b".toList, "s".toList] := by decide +kernel
  refine render_congr_of_extract (by decide +kernel) (fun template h => ?_) fun key hkey => ?_
  · obtain rfl : coveredTemplate = template := Except.ok.inj (hparse.symm.trans h)
    exact ⟨fun h => absurd h (by decide), trivial⟩
  · rw [hkeys, List.mem_cons, List.mem_singleton] at hkey
    rcases hkey with rfl | rfl
    · have hbare : Context.lookup [bareConfig] "a.b".toList = some (.string "x".toList) := rfl
      have hrich : Context.lookup [richConfig] "a.b".toList = some (.string "x".toList) := rfl
      rw [hbare, hrich]
    · have hbare : Context.lookup [bareConfig] "s".toList =
          some (.list [.string "p".toList, .null]) := rfl
      have hrich : Context.lookup [richConfig] "s".toList =
          some (.list [.string "p".toList, .null]) := rfl
      rw [hbare, hrich]

end ConfigTemplate
