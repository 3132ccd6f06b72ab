/-
Layers and names that come twice.

`repeated_layers_redundant` says that a layer counts where it comes first and nowhere else, and
that it makes no difference to the configuration that a name listed twice is fetched once.
-/
import ConfigTemplate.Proofs.Remote.Resolve
import ConfigTemplate.Proofs.Tree.Sameness

namespace ConfigTemplate

/-- The tree that a client has for a name. -/
def Client.settings (client : Client) (name : Text) : Tree :=
  (client name).toOption.getD .null

theorem Client.map_settings {client : Client} {names : List Text} {settings : List Tree}
    (h : names.map client = settings.map .ok) :
    names.map client.settings = settings ∧ ∀ n ∈ names, client n = .ok (client.settings n) := by
  constructor
  · have hmap := congrArg (List.map fun (r : Except Text Tree) => r.toOption.getD .null) h
    rw [List.map_map, List.map_map] at hmap
    exact hmap.trans (List.map_id settings)
  · intro n hn
    have hmem : client n ∈ settings.map .ok := h ▸ List.mem_map_of_mem hn
    obtain ⟨t, -, ht⟩ := List.mem_map.mp hmem
    rw [Client.settings, ← ht]
    rfl

/-- **What comes twice counts once.**  A layer that is the same as one before it can be left
out, whatever stands between the two and whatever kinds of values hide one another there.  So
the configuration, for which every name is fetched once, where it is listed first, is the same
as if the settings of a name were merged each time it is listed. -/
theorem repeated_layers_redundant :
    (∀ (earlier : List Tree) (t u : Tree) (later : List Tree), t ∈ earlier →
      t.sameAs u = true → (∀ s ∈ earlier ++ u :: later, s.WellKeyed) →
        (Tree.merge (earlier ++ u :: later)).sameAs (Tree.merge (earlier ++ later)) = true) ∧
    ∀ (client : Client) (schedule : Nat → Nat) (options : ConfigOptions) (settings : List Tree),
      options.names = (RemoteSpec.nameSpecs options.remotes).eraseDups ∧
      ((RemoteSpec.nameSpecs options.remotes).map client = settings.map .ok →
        (∀ t ∈ options.before ++ settings ++ options.after, t.WellKeyed) →
          ∃ config, (resolveConfig client schedule options).1 = .ok config ∧
            (Tree.merge (options.layers settings)).sameAs config = true) := by
  refine ⟨fun earlier t u later => Tree.sameAs_merge_repeated, ?_⟩
  intro client schedule options settings
  refine ⟨options.names_eq, fun hclient hkeyed => ?_⟩
  obtain ⟨rfl, hfound⟩ := Client.map_settings hclient
  have honce : (RemoteSpec.nameSpecs options.remotes).eraseDups.map client =
      ((RemoteSpec.nameSpecs options.remotes).eraseDups.map client.settings).map .ok := by
    rw [List.map_map]
    exact List.map_congr_left fun n hn => hfound n (List.mem_eraseDups.mp hn)
  refine ⟨_, resolveConfig_eq_merge honce schedule, Tree.sameAs_merge_eraseDups ?_⟩
  intro t ht
  simp only [List.mem_append, List.mem_singleton] at ht hkeyed
  rcases ht with ((ht | rfl) | ht) | ht
  · exact hkeyed t (.inl (.inl ht))
  · exact wellKeyed_pairs options
  · exact hkeyed t (.inl (.inr ht))
  · exact hkeyed t (.inr ht)

/-! ### A text between two maps -/

/-- A client with maps at `x` for one name, and a text there for every other one. -/
def doubledClient : Client := fun name =>
  if name = "base".toList then .ok (.map [("x".toList, .map [("p".toList, .null)])])
  else .ok (.map [("x".toList, .string "s".toList), ("y".toList, .null)])

/-- The name `base` is listed twice, with another one between. -/
def doubledOptions : ConfigOptions where
  remotes := ["base".toList, "z=1".toList, "other".toList, "base".toList]
  after := [.map [("x".toList, .map [("q".toList, .null)])]]

/-- What the three names that are listed lead to. -/
def doubledSettings : List Tree :=
  [.map [("x".toList, .map [("p".toList, .null)])],
    .map [("x".toList, .string "s".toList), ("y".toList, .null)],
    .map [("x".toList, .map [("p".toList, .null)])]]

/-- The second copy of `base` would be laid into the map of the last layer, but the text
hides both.  A copy with its entries in another order can be left out as well. -/
theorem resolveConfig_doubledOptions :
    (∃ config, (resolveConfig doubledClient (fun _ => 0) doubledOptions).1 = .ok config ∧
      (Tree.merge (doubledOptions.layers doubledSettings)).sameAs config = true) ∧
    (Tree.merge [.map [("a".toList, .null), ("b".toList, .map [])],
      .map [("b".toList, .map []), ("a".toList, .null)], .map [("b".toList, .null)]]).sameAs
        (Tree.merge [.map [("a".toList, .null), ("b".toList, .map [])],
          .map [("b".toList, .null)]]) = true := by
  obtain ⟨hlayers, hnames⟩ := repeated_layers_redundant
  constructor
  · apply (hnames doubledClient (fun _ => 0) doubledOptions doubledSettings).2
    · rfl
    · simp [doubledOptions, doubledSettings, Tree.WellKeyed, Tree.WellKeyedEntries,
        Entries.Distinct]
  · apply hlayers [_] _ _ [_] List.mem_cons_self
    · decide
    · simp [Tree.WellKeyed, Tree.WellKeyedEntries, Entries.Distinct]

end ConfigTemplate
