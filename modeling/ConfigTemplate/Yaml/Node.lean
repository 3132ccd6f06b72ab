/-
Nodes of YAML documents.

A `Node` is a scalar, a sequence or a mapping, which may have an anchor and a tag,
or a reference to an anchor.  `Node.ofTokens?` reads the only node of a document
from its tokens.

Design notes: the readers of nodes, items, entries and values call one another at
most thrice for each token, so three times the number of tokens is fuel enough for
all of them.
-/
import ConfigTemplate.Tree.Entries
import ConfigTemplate.Yaml.Token

namespace ConfigTemplate

namespace Yaml

/-- What may be said of a node: a name for it, and what kind of thing it is. -/
structure Properties (α : Type) where
  anchor : Option α
  tag : Option Bytes

namespace Properties

/-- Nothing said of a node. -/
def none {α : Type} : Properties α :=
  ⟨.none, .none⟩

/-- Whether nothing is said of a node. -/
def isNone {α : Type} (p : Properties α) : Bool :=
  p.anchor.isNone && p.tag.isNone

end Properties

/-- A node of a document, whose anchors are names, or numbers once they are known. -/
inductive Node (α : Type) where
  | reference (anchor : α)
  | scalar (about : Properties α) (style : Style) (text : Text)
  | sequence (about : Properties α) (items : List (Node α))
  | mapping (about : Properties α) (entries : List (Node α × Node α))

namespace Node

/-- The node where nothing is written. -/
def empty {α : Type} : Node α :=
  .scalar .none .plain []

/-! ### Properties -/

/-- The tag that a handle and a suffix make. -/
def resolveTag (handles : Entries Bytes) (handle : Text) (suffix : Bytes) :
    Option Bytes :=
  if handle = [] then some suffix else (handles.get? handle).map (· ++ suffix)

/-- Read the properties of a node, in either order. -/
def readProperties (handles : Entries Bytes) : List Token → Option (Properties Text × List Token)
  | .anchor name :: .tag handle suffix :: ts | .tag handle suffix :: .anchor name :: ts => do
    let tag ← resolveTag handles handle suffix
    some (⟨some name, some tag⟩, ts)
  | .anchor name :: ts => some (⟨some name, none⟩, ts)
  | .tag handle suffix :: ts => do
    let tag ← resolveTag handles handle suffix
    some (⟨none, some tag⟩, ts)
  | ts => some (.none, ts)

/-! ### Collections -/

/-- Whether the next token is one of `stops`, so that there is no node before it. -/
def isStop (stops : List Token) : List Token → Bool
  | [] => false
  | t :: _ => stops.contains t

/-- Go to the next item of a flow collection: past a comma, unless it is the first. -/
def passComma (first : Bool) : List Token → Option (List Token)
  | .comma :: ts => if first then none else some ts
  | ts => if first then some ts else none

mutual

/-- Read a node.  Within a flow collection there are no block collections; where
`bare` holds, the items of a block sequence need not be further in. -/
def nodeFrom (handles : Entries Bytes) : (fuel : Nat) → (block bare : Bool) → List Token →
    Option (Node Text × List Token)
  | 0, _, _, _ => none
  | _ + 1, _, _, .alias name :: ts => some (.reference name, ts)
  | fuel + 1, block, bare, ts => do
    let (about, ts) ← readProperties handles ts
    match ts with
    | .scalar style text :: ts => some (.scalar about style text, ts)
    | .sequenceOpen :: ts => do
      let (items, ts) ← flowItemsFrom handles fuel true ts
      some (.sequence about items, ts)
    | .mappingOpen :: ts => do
      let (entries, ts) ← flowEntriesFrom handles fuel true ts
      some (.mapping about entries, ts)
    | ts =>
      if bare && isStop [.entry] ts then do
        let (items, ts) ← itemsFrom handles fuel true ts
        some (.sequence about items, ts)
      else if block && isStop [.blockSequence] ts then do
        let (items, ts) ← itemsFrom handles fuel false (ts.drop 1)
        some (.sequence about items, ts)
      else if block && isStop [.blockMapping] ts then do
        let (entries, ts) ← entriesFrom handles fuel (ts.drop 1)
        some (.mapping about entries, ts)
      else if about.isNone then none
      else some (.scalar about .plain [], ts)

/-- Read a node, or nothing where one of `stops` comes next. -/
def optionalFrom (handles : Entries Bytes) : (fuel : Nat) → (block : Bool) → (bare : Bool) →
    (stops : List Token) → List Token → Option (Node Text × List Token)
  | 0, _, _, _, _ => none
  | fuel + 1, block, bare, stops, ts =>
    if isStop stops ts then some (.empty, ts) else nodeFrom handles fuel block bare ts

/-- Read the value of a key, which may be missing. -/
def valueFrom (handles : Entries Bytes) : (fuel : Nat) → (block : Bool) → (stops : List Token) →
    List Token → Option (Node Text × List Token)
  | 0, _, _, _ => none
  | fuel + 1, block, stops, .value :: ts => optionalFrom handles fuel block block stops ts
  | _ + 1, _, _, ts => some (.empty, ts)

/-- Read the items of a block sequence.  A `bare` one stands in a mapping at the same column
and has no token at its end. -/
def itemsFrom (handles : Entries Bytes) : (fuel : Nat) → (bare : Bool) → List Token →
    Option (List (Node Text) × List Token)
  | 0, _, _ => none
  | fuel + 1, bare, .entry :: ts => do
    let (item, ts) ← optionalFrom handles fuel true false [.entry, .key, .value, .blockEnd] ts
    let (items, ts) ← itemsFrom handles fuel bare ts
    some (item :: items, ts)
  | _ + 1, true, ts => some ([], ts)
  | _ + 1, false, .blockEnd :: ts => some ([], ts)
  | _ + 1, false, _ => none

/-- Read the entries of a block mapping, up to the token at its end. -/
def entriesFrom (handles : Entries Bytes) : (fuel : Nat) → List Token →
    Option (List (Node Text × Node Text) × List Token)
  | 0, _ => none
  | fuel + 1, .key :: ts => do
    let stops := [.key, .value, .blockEnd]
    let (key, ts) ← optionalFrom handles fuel true true stops ts
    let (value, ts) ← valueFrom handles fuel true stops ts
    let (entries, ts) ← entriesFrom handles fuel ts
    some ((key, value) :: entries, ts)
  | _ + 1, .blockEnd :: ts => some ([], ts)
  | _ + 1, _ => none

/-- Read the items of a flow sequence.  A key among them makes a mapping of its own. -/
def flowItemsFrom (handles : Entries Bytes) : (fuel : Nat) → (first : Bool) → List Token →
    Option (List (Node Text) × List Token)
  | 0, _, _ => none
  | _ + 1, _, .sequenceClose :: ts => some ([], ts)
  | fuel + 1, first, ts => do
    match ← passComma first ts with
    | .sequenceClose :: ts => some ([], ts)
    | .key :: ts => do
      let (key, ts) ← optionalFrom handles fuel false false [.value, .comma, .sequenceClose] ts
      let (value, ts) ← valueFrom handles fuel false [.comma, .sequenceClose] ts
      let (items, ts) ← flowItemsFrom handles fuel false ts
      some (.mapping .none [(key, value)] :: items, ts)
    | ts => do
      let (item, ts) ← nodeFrom handles fuel false false ts
      let (items, ts) ← flowItemsFrom handles fuel false ts
      some (item :: items, ts)

/-- Read the entries of a flow mapping.  A node that is no key is a key without a
value. -/
def flowEntriesFrom (handles : Entries Bytes) : (fuel : Nat) → (first : Bool) → List Token →
    Option (List (Node Text × Node Text) × List Token)
  | 0, _, _ => none
  | _ + 1, _, .mappingClose :: ts => some ([], ts)
  | fuel + 1, first, ts => do
    match ← passComma first ts with
    | .mappingClose :: ts => some ([], ts)
    | .key :: ts => do
      let (key, ts) ← optionalFrom handles fuel false false [.value, .comma, .mappingClose] ts
      let (value, ts) ← valueFrom handles fuel false [.comma, .mappingClose] ts
      let (entries, ts) ← flowEntriesFrom handles fuel false ts
      some ((key, value) :: entries, ts)
    | ts => do
      let (key, ts) ← nodeFrom handles fuel false false ts
      let (entries, ts) ← flowEntriesFrom handles fuel false ts
      some ((key, .empty) :: entries, ts)

end

/-! ### Documents -/

/-- What the tags of a handle begin with when no directive says otherwise. -/
def commonHandles : Entries Bytes :=
  [(['!'], Utf8.encode ['!']), (['!', '!'], Utf8.encode "tag:yaml.org,2002:".toList)]

/-- Read the directives before a document: the handles that they name.  There is at
most one of the version, which is 1.1 or 1.2, and one of each handle. -/
def readDirectives : (versioned : Bool) → Entries Bytes → List Token →
    Option (Entries Bytes × List Token)
  | versioned, handles, .version major minor :: ts =>
    if !versioned && major == 1 && (minor == 1 || minor == 2) then readDirectives true handles ts
    else none
  | versioned, handles, .handle name start :: ts =>
    if name ∈ handles.keys then none else readDirectives versioned (handles.put name start) ts
  | _, handles, ts => some (handles, ts)

/-- Whether a token comes next that begins or ends a document. -/
def atBoundary : List Token → Bool
  | [] | .version _ _ :: _ | .handle _ _ :: _ | .documentStart :: _ | .documentEnd :: _ => true
  | _ => false

/-- Read the node of a document whose start is marked. -/
def readMarked (ts : List Token) : Option (Node Text × List Token) := do
  let (handles, ts) ← readDirectives false [] ts
  match ts with
  | .documentStart :: ts =>
    if atBoundary ts then some (.empty, ts)
    else nodeFrom (handles ++ commonHandles) (3 * ts.length) true false ts
  | _ => none

/-- The node of a text that holds one document, or none at all. -/
def ofTokens? (ts : List Token) : Option (Option (Node Text)) :=
  if ts = [] then some none
  else do
    let (node, rest) ←
      if atBoundary ts then readMarked ts else nodeFrom commonHandles (3 * ts.length) true false ts
    guard (rest.all (· == .documentEnd))
    some (some node)

end Node

end Yaml

end ConfigTemplate
