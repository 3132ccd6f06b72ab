/-
Merging layers of configuration.

Layers are listed by precedence.  `Tree.merge` lays them over one another from
the last to the first, so that the earliest layer wins: two maps at a key are
merged, and anything else replaces what stands there, in its place.  Layers that
are not maps have no entries to contribute.
-/
import ConfigTemplate.Tree.Basic

namespace ConfigTemplate

namespace Tree

mutual

/-- The tree that stands at a key once `incoming` is laid over what was there. -/
def laidOver (old : Option Tree) (incoming : Tree) : Tree :=
  match incoming with
  | .map es =>
    match old with
    | some (.map base) => .map (overlay base es)
    | _ => .map es
  | t => t

/-- The entries of `base` with `incoming` laid over them. -/
def overlay (base : Entries Tree) : List (Text × Tree) → Entries Tree
  | [] => base
  | (k, t) :: es => overlay (base.put k (laidOver (base.get? k) t)) es

end

/-- The entries that a layer contributes. -/
def layer : Tree → Entries Tree
  | .map es => es
  | _ => []

/-- The layers merged into one map, the earliest winning. -/
def merge (layers : List Tree) : Tree :=
  .map (layers.foldr (fun t acc => overlay acc t.layer) [])

@[simp] theorem overlay_nil (base : Entries Tree) : overlay base [] = base := by
  simp [overlay]

theorem overlay_cons (base : Entries Tree) (k : Text) (t : Tree) (es : Entries Tree) :
    overlay base ((k, t) :: es) = overlay (base.put k (laidOver (base.get? k) t)) es := by
  simp [overlay]

theorem merge_nil : merge [] = .map [] := rfl

end Tree

end ConfigTemplate
