/-
Paths of references.

A path is what stands between the braces of a placeholder: plain text and, in
between, placeholders nested in it.  `raw` is the path as written, and `parts`
is what resolution reads.  `Path.induct` is induction over paths, with one
hypothesis for each nested path, and `Path.decEq` decides whether two paths are
equal.
-/
import ConfigTemplate.Text.Blank

namespace ConfigTemplate

mutual

/-- A part of a path: plain text, or a nested reference. -/
inductive Part where
  | text (s : Text)
  | ref (path : Path)

/-- A path of a reference. -/
structure Path where
  /-- The path as written, without the blanks around it. -/
  raw : Text
  /-- Its plain text and nested references, in order. -/
  parts : List Part

end

mutual

/-- Whether two parts of paths are equal. -/
def Part.decEq : (a b : Part) → Decidable (a = b)
  | .text s, .text t => decidable_of_iff' (s = t) (.of_eq (Part.text.injEq s t))
  | .ref p, .ref q =>
    have := Path.decEq p q
    decidable_of_iff' (p = q) (.of_eq (Part.ref.injEq p q))
  | .text _, .ref _ | .ref _, .text _ => .isFalse nofun

/-- Whether two paths are equal, as written and in their parts. -/
def Path.decEq : (p q : Path) → Decidable (p = q)
  | ⟨raw, ps⟩, ⟨raw', qs⟩ =>
    have := Path.decEqParts ps qs
    decidable_of_iff' (raw = raw' ∧ ps = qs) (.of_eq (Path.mk.injEq raw ps raw' qs))

/-- Whether two paths have equal parts. -/
def Path.decEqParts : (ps qs : List Part) → Decidable (ps = qs)
  | [], [] => .isTrue rfl
  | a :: ps, b :: qs =>
    have := Part.decEq a b
    have := Path.decEqParts ps qs
    decidable_of_iff' (a = b ∧ ps = qs) (.of_eq (List.cons.injEq a ps b qs))
  | [], _ :: _ | _ :: _, [] => .isFalse nofun

end

instance : DecidableEq Part := Part.decEq

instance : DecidableEq Path := Path.decEq

namespace Path

/-- Induction over paths: a property holds of a path if it holds of every path
nested directly in it. -/
@[induction_eliminator]
theorem induct {motive : Path → Prop}
    (mk : ∀ raw parts, (∀ p, Part.ref p ∈ parts → motive p) → motive ⟨raw, parts⟩) (p : Path) :
    motive p :=
  Path.rec (motive_1 := fun part => ∀ q, part = .ref q → motive q) (motive_2 := motive)
    (motive_3 := fun parts => ∀ q, Part.ref q ∈ parts → motive q)
    (fun _ _ h => by cases h) (fun _ ih _ h => by cases h; exact ih)
    (fun raw parts ih => mk raw parts ih)
    (fun _ h => absurd h List.not_mem_nil)
    (fun _ _ ih ihs q h => (List.mem_cons.mp h).elim (fun h => ih q h.symm) (ihs q)) p

/-- A path of plain text, which is kept in its part with the blanks around it. -/
def literal (s : Text) : Path :=
  ⟨s.trim, [.text s]⟩

/-- Whether there are references in a path. -/
def isNested (p : Path) : Bool :=
  p.parts.any fun
    | .text _ => false
    | .ref _ => true

mutual

/-- How deep references nest in a path; 0 for plain text. -/
def depth : Path → Nat
  | ⟨_, parts⟩ => depthParts parts

/-- The greatest depth that a part reaches. -/
def depthParts : List Part → Nat
  | [] => 0
  | .text _ :: ps => depthParts ps
  | .ref p :: ps => max (depth p + 1) (depthParts ps)

end

@[simp] theorem depth_literal (s : Text) : (literal s).depth = 0 := rfl

@[simp] theorem isNested_literal (s : Text) : (literal s).isNested = false := rfl

end Path

end ConfigTemplate
