/-
Lookup by path.

A path is a list of segments.  A map is entered by key and a list by position,
and a path with a segment that leads nowhere has no tree: `lookup_append` says
that a lookup can be made in steps.
-/
import ConfigTemplate.Tree.Basic

namespace ConfigTemplate

/-- The segments of a dotted path; there is always one, if only the empty one. -/
def segments (path : Text) : List Text :=
  path.pieces (· == '.')

namespace Tree

/-- The tree that one segment leads to.  Positions in a list are read as `Decimal.readIndex` does.
-/
def child (t : Tree) (segment : Text) : Option Tree :=
  match t with
  | .map es => Entries.get? es segment
  | .list items => (Decimal.readIndex segment).bind (items[·]?)
  | _ => none

/-- The tree that segments lead to, one after another. -/
def lookup : Tree → List Text → Option Tree
  | t, [] => some t
  | t, k :: ks => (t.child k).bind (lookup · ks)

/-- The tree that a dotted path leads to. -/
def lookupDotted (t : Tree) (path : Text) : Option Tree :=
  t.lookup (segments path)

@[simp] theorem lookup_nil (t : Tree) : t.lookup [] = some t := rfl

@[simp] theorem lookup_cons (t : Tree) (k : Text) (ks : List Text) :
    t.lookup (k :: ks) = (t.child k).bind (lookup · ks) := rfl

/-- The tree at a path and on is the tree at the rest of it. -/
theorem lookup_append (t : Tree) (p q : List Text) :
    t.lookup (p ++ q) = (t.lookup p).bind (lookup · q) := by
  induction p generalizing t with
  | nil => rfl
  | cons k p ih =>
    rw [List.cons_append, lookup_cons, lookup_cons, Option.bind_assoc]
    exact Option.bind_congr fun u _ => ih u

end Tree

end ConfigTemplate
