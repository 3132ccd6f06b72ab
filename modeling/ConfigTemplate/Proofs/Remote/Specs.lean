/-
What the specs among the remotes come to.

* `pairs_eq_foldl`, `names_eq`: the pairs are set in the order of the specs with an equals
  sign, and the names are the other specs, each where it is first listed; an empty spec is
  neither;
* `descend_foldl_assign_iff`: paths set in turn leave a text at a path if the last of them
  that touches it is the path itself.

Design notes: an assignment touches all paths above and below its own, since it makes maps
of what is above and removes what is below.
-/
import Mathlib.Data.List.Induction
import Mathlib.Data.List.TakeWhile
import ConfigTemplate.Proofs.Tree.Descend
import ConfigTemplate.Remote.Resolve

namespace ConfigTemplate

namespace RemoteSpec

/-- The segments of what stands before the first equals sign. -/
def path (spec : Text) : List Text :=
  Text.pieces (fun c => c = '.' || c = ':') (spec.takeWhile (· != '='))

/-- What stands after the first equals sign. -/
def value (spec : Text) : Text :=
  (spec.dropWhile (· != '=')).tail

theorem parse_of_mem {spec : Text} (h : '=' ∈ spec) :
    parse spec = .pair (path spec) (value spec) := by
  rw [parse, value]
  rcases hrest : spec.dropWhile (· != '=') with _ | ⟨c, rest⟩
  · have hne := List.dropWhile_eq_nil_iff.mp hrest '=' h
    simp at hne
  · rfl

theorem parse_of_not_mem {spec : Text} (h : '=' ∉ spec) : parse spec = .named spec := by
  have hrest : spec.dropWhile (· != '=') = [] := by
    refine List.dropWhile_eq_nil_iff.mpr fun c hc => ?_
    exact bne_iff_ne.mpr fun heq => h (heq ▸ hc)
  rw [parse, hrest]

/-- The specs with an equals sign. -/
def pairSpecs (remotes : List Text) : List Text :=
  remotes.filter fun spec => '=' ∈ spec

/-- The specs that are names. -/
def nameSpecs (remotes : List Text) : List Text :=
  remotes.filter fun spec => spec ≠ [] ∧ '=' ∉ spec

end RemoteSpec

/-! ### Setting paths one after the other -/

/-- A path of keys and the text that it is set to. -/
abbrev Assignment := List Text × Text

namespace Assignment

/-- Setting the path of the assignment changes what is held at the other. -/
def Touches (a : Assignment) (p : List Text) : Prop :=
  a.1 <+: p ∨ p <+: a.1

instance (a : Assignment) (p : List Text) : Decidable (a.Touches p) :=
  inferInstanceAs (Decidable (_ ∨ _))

/-- Set the path of an assignment to its text. -/
def assign (es : Entries Tree) (a : Assignment) : Entries Tree :=
  Tree.insertPath es a.1 (.string a.2)

theorem descend_assign_iff (es : Entries Tree) {a : Assignment} (ha : a.1 ≠ []) (p : List Text)
    (s : Text) :
    (Tree.map (assign es a)).descend p = some (.string s) ↔
      if a.Touches p then a = (p, s) else (Tree.map es).descend p = some (.string s) := by
  obtain ⟨q, w⟩ := a
  rw [assign]
  split
  · next htouches =>
    by_cases hqp : q = p
    · subst hqp
      simpa using congrArg (· = some (Tree.string s))
        (Tree.descend_insertPath_append es (.string w) ha [])
    · have hne : (q, w) ≠ (p, s) := fun h => hqp (Prod.mk.inj h).1
      refine iff_of_false (fun hs => ?_) hne
      rcases htouches with ⟨r, rfl⟩ | ⟨r, rfl⟩
      · -- The path is below `q`, where a text holds nothing.
        have hr : r ≠ [] := by simpa using hqp
        rw [Tree.descend_insertPath_append es _ ha, Tree.descend_of_not_map rfl hr] at hs
        cases hs
      · -- The path is above `q`, where there are maps.
        have hr : r ≠ [] := by simpa using hqp
        obtain ⟨fs, hfs⟩ := Tree.descend_insertPath_above es (.string w) p hr
        rw [hfs] at hs
        cases hs
  · next htouches =>
    obtain ⟨hqp, hpq⟩ := not_or.mp htouches
    rw [Tree.descend_insertPath_of_not_prefix es _ hqp hpq]

/-- **Setting paths one after the other** leaves a text at a path if and only if the last
assignment that touches the path sets it to that text. -/
theorem descend_foldl_assign_iff {as : List Assignment} (h : ∀ a ∈ as, a.1 ≠ [])
    (p : List Text) (s : Text) :
    (Tree.map (as.foldl assign [])).descend p = some (.string s) ↔
      (as.filter (·.Touches p)).getLast? = some (p, s) := by
  induction as using List.reverseRecOn with
  | nil =>
    rcases p with _ | ⟨k, ks⟩
    · simp
    · simp [Tree.descend_cons, Tree.layer]
  | append_singleton as a ih =>
    rw [List.forall_mem_append] at h
    rw [List.foldl_append, List.foldl_cons, List.foldl_nil, descend_assign_iff _ (h.2 a (by simp)),
      List.filter_append]
    by_cases htouches : a.Touches p
    · simp [htouches, -List.getLast?_filter]
    · simp [htouches, -List.getLast?_filter, ih h.1]

end Assignment

/-! ### The pairs and the names -/

namespace RemoteSpec

/-- What the pairs among the remotes set, in order. -/
def assignments (remotes : List Text) : List Assignment :=
  (pairSpecs remotes).map fun spec => (path spec, value spec)

theorem path_ne_nil_of_mem {remotes : List Text} : ∀ a ∈ assignments remotes, a.1 ≠ [] := by
  intro a ha
  obtain ⟨spec, -, rfl⟩ := List.mem_map.mp ha
  exact Text.pieces_ne_nil _ _

end RemoteSpec

/-- Appending what is new keeps every element where it comes first. -/
theorem foldl_append_new {α : Type} [BEq α] [LawfulBEq α] (l : List α) :
    l.foldl (fun acc a => if acc.contains a then acc else acc ++ [a]) [] = l.eraseDups := by
  induction l using List.reverseRecOn with
  | nil => rfl
  | append_singleton l a ih =>
    rw [List.foldl_append, ih, List.foldl_cons, List.foldl_nil, List.eraseDups_append]
    by_cases h : a ∈ l <;> simp [h, List.removeAll, List.eraseDups_cons]

namespace ConfigOptions

theorem pairs_eq_foldl (options : ConfigOptions) :
    options.pairs = (RemoteSpec.assignments options.remotes).foldl Assignment.assign [] := by
  rw [pairs, specs, List.foldl_map, List.foldl_filter, RemoteSpec.assignments, List.foldl_map,
    RemoteSpec.pairSpecs, List.foldl_filter]
  congr 1
  funext es spec
  by_cases h : '=' ∈ spec
  · have hne : spec ≠ [] := List.ne_nil_of_mem h
    simp [h, hne, RemoteSpec.parse_of_mem h, Assignment.assign]
  · simp [h, RemoteSpec.parse_of_not_mem h]

theorem names_eq (options : ConfigOptions) :
    options.names = (RemoteSpec.nameSpecs options.remotes).eraseDups := by
  rw [← foldl_append_new, names, RemoteSpec.names, specs, List.foldl_map, List.foldl_filter,
    RemoteSpec.nameSpecs, List.foldl_filter]
  congr 1
  funext acc spec
  by_cases h : '=' ∈ spec
  · simp [h, RemoteSpec.parse_of_mem h]
  · by_cases hne : spec = []
    · simp [hne]
    · simp [h, hne, RemoteSpec.parse_of_not_mem h]

end ConfigOptions

end ConfigTemplate
