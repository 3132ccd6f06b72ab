/-
What the variables of an environment name.

A leaf of a configuration has a name in the environment, and a path with points for
templates.  With plain keys the one can be read off the other:

* `extract_whole`: an inventory of one variable requires its path and nothing else;
* `render_whole`: a placeholder alone renders to the text of its value;
* `namesLeaf`: so a variable, seen as a reference, leads back to the leaf it is made
  from;
* `environment_names_leaves`: and the environment is made of such variables, two for
  each leaf.
-/
import ConfigTemplate.Proofs.Inventory.Keys
import ConfigTemplate.Proofs.Inventory.Preflight
import ConfigTemplate.Proofs.Reference.Whole
import ConfigTemplate.Proofs.Tree.Variables

namespace ConfigTemplate

section

variable {t v : Tree} {path : Text}

/-- **An inventory of one variable** requires its path and nothing else. -/
theorem extract_whole {source : Text} (hne : path ≠ Context.current) (htrim : path.trim = path)
    (hfound : t.lookupDotted path = some v)
    (h : (envVars source).tokens = [⟨.envVar, .literal path, source, .start⟩]) :
    (extract .envVars source (some t)).required.keys = [path] ∧
      (extract .envVars source (some t)).fatal.records = [] := by
  have hresolve : Context.resolvePath [t] (.literal path) = .ok path := by
    rw [Context.resolvePath_literal, htrim]
  have hlookup : Context.lookup [t] path = some v := by
    rw [Context.lookup_singleton t hne, hfound]
  have hadd : ∀ text : Text,
      Inventory.add [t] text .empty ⟨.envVar, .literal path, source, .start⟩ =
        Inventory.require .empty true ⟨path, 1, text⟩ := by
    intro text
    have hraw : (Path.literal path).raw ≠ Context.current := by
      rw [Path.literal, htrim]
      exact hne
    rw [Inventory.add_reference rfl, if_neg hraw, hresolve]
    simp only [hlookup]
    rfl
  rw [extract_eq_foldl_references, ReferenceStyle.references, h]
  simp only [List.foldl_cons, List.foldl_nil, Context.ofConfig, Option.toList_some, hadd]
  exact ⟨rfl, rfl⟩

/-- **A placeholder alone renders to the text of its value.** -/
theorem render_whole {source : Text} {tok : Token} (hkind : tok.kind = .name)
    (h : placeholders source = .before [] tok (.last []))
    (hv : Context.resolve [t] tok.path = .ok v) : render source t = .ok v.text := by
  have hparse : Template.parse source = .ok ⟨[.reference tok]⟩ := by
    simp [Template.parse, h, Node.build, hkind, Node.literal, bind, Except.bind]
  have hverify : Template.verify ⟨[.reference tok]⟩ t = .ok () := by
    refine (Template.verify_ok_iff _ t).mpr fun u hu => ?_
    obtain rfl : u = tok := by simpa [Node.outside] using hu
    exact ⟨v, hv⟩
  have hrender : Template.render ⟨[.reference tok]⟩ t = .ok v.text := by
    rw [Template.render_of_verify hverify]
    simp [Node.strokes, Stroke.run, Stroke.written, hv, Except.map]
  rw [render_of_parse hparse, hrender]

end

/-- What it is for the variable `name` to name a leaf of `t`, whose path is `path` with
points: written with a dollar sign it is one reference, to `path`; that path leads to the
leaf; an inventory requires it and misses nothing; and a placeholder of it renders to the
text of the leaf. -/
structure NamesLeaf (t : Tree) (name path : Text) (leaf : Tree) : Prop where
  token : (envVars ('$' :: name)).tokens = [⟨.envVar, ⟨path, [.text path]⟩, '$' :: name, .start⟩]
  found : t.lookupDotted path = some leaf
  required : path ∈ (extract .envVars ('$' :: name) (some t)).required.keys
  satisfied : (extract .envVars ('$' :: name) (some t)).fatal.records = []
  rendered : render (braced path) t = .ok leaf.text

/-- **A variable names the leaf that it is made from.** -/
theorem namesLeaf {t v : Tree} {path : List Text} {p : Text} (hp : p ∈ Tree.environmentPrefixes)
    (hroot : t.isScalar = false) (hplain : t.PlainKeyed) (hkeyed : t.WellKeyed)
    (hsize : t.Addressable) (h : Tree.Leaf t path v) :
    NamesLeaf t (p ++ Tree.environmentName path) (dotted path) v := by
  have hkeys : ∀ k ∈ path, PlainKey k := h.plainKey hplain
  have hne : path ≠ [] := h.path_ne_nil hroot
  have hchars := isPathChar_dotted hkeys
  have htrim : (dotted path).trim = dotted path := Text.trim_eq_self fun c hc => (hchars c hc).2
  have hcurrent : dotted path ≠ Context.current := dotted_ne_current hne hkeys
  have hfound : t.lookupDotted (dotted path) = some v := by
    rw [Tree.lookupDotted, segments_dotted hne hkeys]
    exact h.lookup_eq hkeyed hsize
  have hlead : '$' :: p ∈ EnvVar.prefixes := by
    simp only [Tree.environmentPrefixes, List.mem_cons, List.not_mem_nil, or_false] at hp
    rcases hp with rfl | rfl
    · decide
    · decide
  have hvar := envVars_whole hlead (environmentName_ne_nil hne hkeys)
    (isNameChar_environmentName hkeys)
  have htokens : (envVars ('$' :: (p ++ Tree.environmentName path))).tokens =
      [⟨.envVar, .literal (dotted path), '$' :: (p ++ Tree.environmentName path), .start⟩] := by
    rw [← List.cons_append, hvar, EnvVar.path, map_environmentName hkeys]
    rfl
  obtain ⟨hrequired, hfatal⟩ := extract_whole hcurrent htrim hfound htokens
  obtain ⟨u, hu, hplaceholder⟩ := placeholders_whole (fun c hc => (hchars c hc).1)
    (fun c hc => (hchars c hc).2) (dotted_ne_nil hne hkeys)
  have hresolve : Context.resolve [t] (.literal u) = .ok v := by
    have hkey := Context.resolvePath_literal [t] u
    rw [hu] at hkey
    rw [Context.resolve_of_resolvePath hkey, Context.find_eq_ok_iff,
      Context.lookup_singleton t hcurrent, hfound]
  exact {
    token := by rw [htokens, Path.literal, htrim]
    found := hfound
    required := by
      rw [hrequired]
      exact List.mem_singleton_self _
    satisfied := hfatal
    rendered := render_whole rfl hplaceholder hresolve }

/-- **The environment names the leaves of a configuration.**  For a list or a map with
plain keys, the leaves are the scalars of the configuration, each once.  The environment
has two variables for each of them, all with different names, and every variable, as a
reference and as a placeholder, leads to its own leaf and gives its text. -/
theorem environment_names_leaves {t : Tree} (hroot : t.isScalar = false)
    (hplain : t.PlainKeyed) (hkeyed : t.WellKeyed) (hsize : t.Addressable) :
    ((t.leaves.map Prod.fst).Nodup ∧
      ∀ path v, (path, v) ∈ t.leaves ↔ Tree.Leaf t path v) ∧
    t.environment = (t.leaves.flatMap fun l =>
      ["quill_".toList, "q_".toList].map fun p => (p ++ Tree.environmentName l.1, l.2.text)) ∧
    t.environment.keys.Nodup ∧
    ∀ name text, (name, text) ∈ t.environment →
      ∃ path v, Tree.Leaf t path v ∧ text = v.text ∧ NamesLeaf t name (dotted path) v := by
  have henvironment := Tree.environment_eq_flatMap hroot hplain hkeyed
  refine ⟨⟨Tree.nodup_leaves hkeyed, fun _ _ => Tree.mem_leaves_iff⟩, henvironment, ?_, ?_⟩
  · rw [henvironment]
    exact Tree.nodup_published hroot hplain hkeyed
  · intro name text hmem
    rw [henvironment, List.mem_flatMap] at hmem
    obtain ⟨⟨path, v⟩, hl, hmem⟩ := hmem
    obtain ⟨p, hp, heq⟩ := List.mem_map.mp hmem
    obtain ⟨rfl, rfl⟩ := Prod.mk.inj heq
    have hleaf : Tree.Leaf t path v := Tree.mem_leaves_iff.mp hl
    exact ⟨path, v, hleaf, rfl, namesLeaf hp hroot hplain hkeyed hsize hleaf⟩

/-- A list and a scalar under plain keys. -/
def namedConfig : Tree :=
  .map [("a-1".toList, .list [.bool true, .null]), ("b".toList, .string "x".toList)]

/-- The first item of the list is named by its position. -/
theorem namedConfig_names_leaf :
    namedConfig.isScalar = false ∧ namedConfig.PlainKeyed ∧ namedConfig.WellKeyed ∧
      namedConfig.Addressable ∧ ∃ path v, Tree.Leaf namedConfig path v ∧
        "true".toList = v.text ∧ NamesLeaf namedConfig "q_a-1_0".toList (dotted path) v := by
  have hitems : ∀ e ∈ (Tree.list [.bool true, .null]).children, e.2.isScalar = true := by decide
  have hlist : (Tree.list [.bool true, .null]).PlainKeyed ∧
      (Tree.list [.bool true, .null]).Addressable :=
    ⟨Tree.plainKeyed_iff.mpr ⟨by simp, fun e he => Tree.plainKeyed_of_isScalar (hitems e he)⟩,
      Tree.addressable_iff.mpr ⟨by simp, fun e he => Tree.addressable_of_isScalar (hitems e he)⟩⟩
  have hbelow : ∀ e ∈ namedConfig.children, e.2.PlainKeyed ∧ e.2.Addressable := by
    intro e he
    simp only [namedConfig, Tree.children, List.mem_cons, List.not_mem_nil, or_false] at he
    rcases he with rfl | rfl
    · exact hlist
    · exact ⟨Tree.plainKeyed_of_isScalar rfl, Tree.addressable_of_isScalar rfl⟩
  have hplain : namedConfig.PlainKeyed := by
    refine Tree.plainKeyed_iff.mpr ⟨fun entries h => ?_, fun e he => (hbelow e he).1⟩
    cases h
    decide
  have hsize : namedConfig.Addressable := by
    refine Tree.addressable_iff.mpr ⟨fun items h => ?_, fun e he => (hbelow e he).2⟩
    cases h
  have hkeyed : namedConfig.WellKeyed := by
    simp [namedConfig, Tree.WellKeyed, Tree.WellKeyedEntries, Tree.WellKeyedItems,
      Entries.Distinct]
  have hmem : ("q_a-1_0".toList, "true".toList) ∈ namedConfig.environment := by decide +kernel
  obtain ⟨-, -, -, hnames⟩ := environment_names_leaves (t := namedConfig) rfl hplain hkeyed hsize
  exact ⟨rfl, hplain, hkeyed, hsize, hnames _ _ hmem⟩

end ConfigTemplate
