/-
Setting one path.

`Entries.insertPath` sets the tree at a path of keys, making the maps on the way
and replacing whatever else stands in their place.
-/
import ConfigTemplate.Tree.Merge

namespace ConfigTemplate

namespace Tree

/-- Set the tree at a path of keys.  The empty path names nothing to set. -/
def insertPath (es : Entries Tree) : List Text → Tree → Entries Tree
  | [], _ => es
  | [k], t => es.put k t
  | k :: l :: ks, t =>
    es.put k (.map (insertPath (((es.get? k).map layer).getD []) (l :: ks) t))

@[simp] theorem insertPath_nil (es : Entries Tree) (t : Tree) : insertPath es [] t = es := rfl

@[simp] theorem insertPath_singleton (es : Entries Tree) (k : Text) (t : Tree) :
    insertPath es [k] t = es.put k t := rfl

end Tree

end ConfigTemplate
