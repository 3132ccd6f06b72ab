/-
The full configuration, path by path.

`resolveConfig_path_by_path` says of every path which layer the configuration has its value
from, what the pairs among the remotes hold there, and that it does not matter how pairs and
names are mixed.
-/
import ConfigTemplate.Proofs.Remote.Fetch
import ConfigTemplate.Proofs.Remote.Specs
import ConfigTemplate.Proofs.Tree.Precedence

namespace ConfigTemplate

theorem wellKeyed_pairs (options : ConfigOptions) : (Tree.map options.pairs).WellKeyed := by
  rw [options.pairs_eq_foldl]
  generalize RemoteSpec.assignments options.remotes = as
  induction as using List.reverseRecOn with
  | nil => exact Tree.wellKeyed_map_nil
  | append_singleton as a ih =>
    rw [List.foldl_append]
    exact Tree.wellKeyed_insertPath ih a.1 trivial

/-- When every name is found, the configuration is the merge of all layers. -/
theorem resolveConfig_eq_merge {client : Client} {options : ConfigOptions} {settings : List Tree}
    (h : (RemoteSpec.nameSpecs options.remotes).eraseDups.map client = settings.map .ok)
    (schedule : Nat → Nat) :
    (resolveConfig client schedule options).1 = .ok (Tree.merge (options.layers settings)) := by
  have hanswers : (client.exchanges options.names).map Prod.snd = settings.map .ok := by
    rw [options.names_eq, ← h, Client.exchanges, List.map_map]
    rfl
  rw [resolveConfig_eq_settled, Flight.settled_of_ok hanswers]
  rfl

/-- The pairs depend on the specs with an equals sign only. -/
theorem pairs_congr {options : ConfigOptions} {remotes : List Text}
    (h : RemoteSpec.pairSpecs remotes = RemoteSpec.pairSpecs options.remotes) :
    { options with remotes := remotes }.pairs = options.pairs := by
  rw [ConfigOptions.pairs_eq_foldl, ConfigOptions.pairs_eq_foldl, RemoteSpec.assignments,
    RemoteSpec.assignments, h]

/-- **The configuration, path by path.**  If every name is found, the first layer that blocks a
path decides what the configuration holds there; the pairs hold a text where the last of
them that touches the path sets it; and remotes with the same pairs and the same names in
their orders make the same configuration. -/
theorem resolveConfig_path_by_path (client : Client) (schedule : Nat → Nat)
    (options : ConfigOptions) {settings : List Tree}
    (hclient : (RemoteSpec.nameSpecs options.remotes).eraseDups.map client = settings.map .ok)
    (hkeyed : ∀ t ∈ options.before ++ settings ++ options.after, t.WellKeyed) :
    ∃ config, (resolveConfig client schedule options).1 = .ok config ∧
      (∀ p v, p ≠ [] → v.isMap = false →
        (config.descend p = some v ↔ ∃ earlier t later,
          options.before ++ [.map options.pairs] ++ settings ++ options.after =
            earlier ++ t :: later ∧
          t.isMap = true ∧ t.descend p = some v ∧
            ∀ u ∈ earlier, u.isMap = true → ¬ u.Blocks p)) ∧
      (∀ p s, (Tree.map options.pairs).descend p = some (.string s) ↔
        ((RemoteSpec.assignments options.remotes).filter (·.Touches p)).getLast? = some (p, s)) ∧
      ∀ remotes schedule', RemoteSpec.pairSpecs remotes = RemoteSpec.pairSpecs options.remotes →
        RemoteSpec.nameSpecs remotes = RemoteSpec.nameSpecs options.remotes →
          (resolveConfig client schedule' { options with remotes := remotes }).1 = .ok config := by
  have hlayers : ∀ t ∈ options.layers settings, t.WellKeyed := by
    intro t ht
    simp only [ConfigOptions.layers, List.mem_append, List.mem_singleton] at ht hkeyed
    rcases ht with ((ht | rfl) | ht) | ht
    · exact hkeyed t (.inl (.inl ht))
    · exact wellKeyed_pairs options
    · exact hkeyed t (.inl (.inr ht))
    · exact hkeyed t (.inr ht)
  refine ⟨Tree.merge (options.layers settings), resolveConfig_eq_merge hclient schedule,
    fun p v hp hv => Tree.descend_merge_iff hlayers hp hv, fun p s => ?_,
    fun remotes schedule' hpairs hnames => ?_⟩
  · rw [options.pairs_eq_foldl]
    exact Assignment.descend_foldl_assign_iff RemoteSpec.path_ne_nil_of_mem p s
  · rw [@resolveConfig_eq_merge client { options with remotes := remotes } settings
      (hnames ▸ hclient), ConfigOptions.layers, ConfigOptions.layers, pairs_congr hpairs]

/-! ### A truth value before a pair -/

/-- A client that has the settings `x` and `d` for every name. -/
def mixedClient : Client := fun _ =>
  .ok (.map [("x".toList, .null), ("d".toList, .null)])

/-- At `a` a layer before holds a truth value, and the pairs set paths below `a` and `x`. -/
def mixedOptions : ConfigOptions where
  before := [.map [("a".toList, .bool true)]]
  remotes := ["base".toList, "a.b=1".toList, "x=1".toList, "".toList, "base".toList,
    "x:y=2=3".toList]

/-- The configuration holds the pair at `x.y` and nothing at `a.b`, also with the pairs first. -/
theorem resolveConfig_mixedOptions :
    ∃ config, (resolveConfig mixedClient (fun _ => 0) mixedOptions).1 = .ok config ∧
      config.descend ["x".toList, "y".toList] = some (.string "2=3".toList) ∧
      config.descend ["a".toList, "b".toList] ≠ some (.string "1".toList) ∧
      (resolveConfig mixedClient (fun _ => 1) { mixedOptions with
        remotes := ["a.b=1".toList, "x=1".toList, "x:y=2=3".toList, "base".toList,
          "base".toList] }).1 = .ok config := by
  obtain ⟨config, hconfig, hpath, hpairs, hremotes⟩ :=
    @resolveConfig_path_by_path mixedClient (fun _ => 0) mixedOptions
      [.map [("x".toList, .null), ("d".toList, .null)]] rfl
      (by simp [mixedOptions, Tree.WellKeyed, Tree.WellKeyedEntries, Entries.Distinct])
  refine ⟨config, hconfig, ?_, fun h => ?_, hremotes _ _ (by decide) (by decide)⟩
  · refine (hpath _ _ (by simp) rfl).mpr ⟨mixedOptions.before, .map mixedOptions.pairs, _, rfl, rfl,
      (hpairs _ _).mpr (by decide), fun u hu _ => ?_⟩
    obtain rfl := List.mem_singleton.mp hu
    exact Tree.blocks_cons_none rfl rfl _
  · obtain ⟨earlier, t, later, hlayers, -, ht, hearlier⟩ := (hpath _ _ (by simp) rfl).mp h
    rcases earlier with _ | ⟨u, earlier⟩
    · obtain rfl := (List.cons.inj hlayers).1
      cases ht
    · obtain rfl := (List.cons.inj hlayers).1
      exact hearlier _ List.mem_cons_self rfl ((Tree.blocks_cons_some rfl rfl _).mpr (.inl rfl))

end ConfigTemplate
