/-
Contexts: where names are looked up.

A context is a stack of trees, innermost first.  A dotted path belongs to the
innermost tree that has its first segment, even when that tree lacks the rest of
the path; the path `.` is the innermost tree itself.  `lookup_singleton` says
that a context of one tree adds nothing to lookup in that tree.
-/
import ConfigTemplate.Tree.Lookup

namespace ConfigTemplate

/-- A stack of trees in which names are looked up, innermost first. -/
abbrev Context := List Tree

namespace Context

/-- The path of the innermost tree itself. -/
def current : Text := ['.']

/-- Whether a tree has a segment, so that paths that begin with it belong to the tree. -/
def has (t : Tree) (segment : Text) : Bool :=
  (t.child segment).isSome

/-- Where a dotted path leads: the innermost tree that has its first segment settles it. -/
def lookup (frames : Context) (path : Text) : Option Tree :=
  if path = current then frames.head?
  else match segments path with
    | [] => none
    | k :: ks => (frames.find? (has · k)).bind (·.lookup (k :: ks))

@[simp] theorem lookup_current (frames : Context) : lookup frames current = frames.head? := by
  simp [lookup]

@[simp] theorem lookup_empty (path : Text) : lookup [] path = none := by
  unfold lookup
  split
  · rfl
  · split <;> rfl

/-- In a context of one tree, a path other than `.` leads where it leads in the
tree. -/
theorem lookup_singleton (t : Tree) {path : Text} (h : path ≠ current) :
    lookup [t] path = t.lookupDotted path := by
  unfold lookup Tree.lookupDotted
  rw [if_neg h]
  rcases hs : segments path with _ | ⟨k, ks⟩
  · exact absurd hs (Text.pieces_ne_nil _ _)
  · rcases hc : t.child k with _ | u
    · simp [has, hc]
    · simp [has, hc]

end Context

end ConfigTemplate
