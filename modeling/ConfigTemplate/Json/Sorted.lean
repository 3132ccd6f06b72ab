/-
JSON documents with sorted objects.

`SortedJson` is a document of which every object is kept in the order of its keys:
a member goes to its place as soon as it is read, and a later one with the same key
takes its place.  `Tree.ofSortedJson` is the configuration tree that it stands for.
-/
import ConfigTemplate.Json.Reader

namespace ConfigTemplate

/-- A JSON document with the members of each object in the order of their keys. -/
inductive SortedJson where
  | null
  | bool (b : Bool)
  | number (n : Number)
  | string (s : Text)
  | array (items : List SortedJson)
  | object (members : List (Text × SortedJson))

namespace Entries

variable {α : Type}

/-- Set the value at a key: in place if the key is there, else before the first key
that comes after it. -/
def insertSorted : Entries α → Text → α → Entries α
  | [], k, v => [(k, v)]
  | (j, w) :: es, k, v =>
    if j = k then (j, v) :: es
    else if Text.le j k then (j, w) :: insertSorted es k v
    else (k, v) :: (j, w) :: es

/-- Set every pair in turn. -/
def insertAll (es : Entries α) (ps : List (Text × α)) : Entries α :=
  ps.foldl (fun es p => insertSorted es p.1 p.2) es

end Entries

namespace SortedJson

/-- The builder of sorted documents, which puts every member in its place as it is read. -/
def builder : Json.Builder SortedJson :=
  ⟨.null, .bool, .number, .string, .array, fun members => .object (Entries.insertAll [] members)⟩

/-- Read a whole document, with its objects sorted. -/
def read (s : Text) : Except Json.Fault SortedJson :=
  Json.readWith builder s

end SortedJson

namespace Tree

mutual

/-- The tree that a sorted document stands for. -/
def ofSortedJson : SortedJson → Tree
  | .null => .null
  | .bool b => .bool b
  | .number n => .number n
  | .string s => .string s
  | .array items => .list (ofSortedItems items)
  | .object members => .map (Entries.putAll [] (ofSortedMembers members))

/-- The trees of the items of an array. -/
def ofSortedItems : List SortedJson → List Tree
  | [] => []
  | d :: ds => ofSortedJson d :: ofSortedItems ds

/-- The trees of the members of an object, in the order of their keys. -/
def ofSortedMembers : List (Text × SortedJson) → List (Text × Tree)
  | [] => []
  | (k, d) :: ms => (k, ofSortedJson d) :: ofSortedMembers ms

end

end Tree

end ConfigTemplate
