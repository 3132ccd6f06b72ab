/-
What is built from a document while it is read.

* `Json.Builder.build`: what a builder makes of a document as it is written;
* `readWith_eq_map_read`: reading with a builder is reading the document and building from it,
  with the same fault if it is refused.
-/
import ConfigTemplate.Json.Reader

namespace ConfigTemplate

namespace Json

theorem Fault.bind_eq_ok_iff {α β : Type} {r : Except Fault α} {f : α → Except Fault β} {b : β} :
    (r >>= f) = .ok b ↔ ∃ a, r = .ok a ∧ f a = .ok b := by
  cases r <;> simp [bind, Except.bind]

section

variable {α : Type} (b : Builder α)

mutual

/-- What a builder makes of a document. -/
def Builder.build : Json → α
  | .null => b.null
  | .bool x => b.bool x
  | .number n => b.number n
  | .string s => b.string s
  | .array items => b.array (Builder.buildItems items)
  | .object members => b.object (Builder.buildMembers members)

/-- What it makes of the items of an array. -/
def Builder.buildItems : List Json → List α
  | [] => []
  | j :: js => Builder.build j :: Builder.buildItems js

/-- What it makes of the members of an object, each under its name. -/
def Builder.buildMembers : List (Text × Json) → List (Text × α)
  | [] => []
  | (k, j) :: ms => (k, Builder.build j) :: Builder.buildMembers ms

end

theorem readWord_map {β : Type} (f : β → α) (x : β) (word s : Text) :
    readWord (f x) word s = (readWord x word s).map (Prod.map f id) := by
  induction word generalizing s with
  | nil => rfl
  | cons w ws ih =>
    cases s with
    | nil => rfl
    | cons c s =>
      rw [readWord, readWord]
      split
      · exact ih s
      · rfl

/-- Reading with a builder, step by step: for all three readers at once, as each calls the
others with less fuel. -/
theorem from_eq_map_from (fuel : Nat) :
    (∀ depth s, valueFrom b fuel depth s =
      (valueFrom .document fuel depth s).map (Prod.map b.build id)) ∧
    (∀ depth first s, itemsFrom b fuel depth first s =
      (itemsFrom .document fuel depth first s).map (Prod.map b.buildItems id)) ∧
    ∀ depth first s, membersFrom b fuel depth first s =
      (membersFrom .document fuel depth first s).map (Prod.map b.buildMembers id) := by
  induction fuel with
  | zero => exact ⟨fun _ _ => rfl, fun _ _ _ => rfl, fun _ _ _ => rfl⟩
  | succ fuel ih =>
    obtain ⟨ihvalue, ihitems, ihmembers⟩ := ih
    refine ⟨fun depth s => ?_, fun depth first s => ?_, fun depth first s => ?_⟩
    · rw [valueFrom, valueFrom]
      cases skipSpace s with
      | nil => rfl
      | cons c t =>
        -- A case for each first character of a value.
        dsimp only
        split
        · exact readWord_map b.build Json.null _ t
        split
        · exact readWord_map b.build (Json.bool true) _ t
        split
        · exact readWord_map b.build (Json.bool false) _ t
        split
        · cases readNumber true t <;> rfl
        split
        · cases readNumber false (c :: t) <;> rfl
        split
        · cases readString t <;> rfl
        split
        · cases depth with
          | zero => rfl
          | succ depth =>
            dsimp only
            rw [ihitems]
            cases itemsFrom .document fuel depth true t <;> rfl
        split
        · cases depth with
          | zero => rfl
          | succ depth =>
            dsimp only
            rw [ihmembers]
            cases membersFrom .document fuel depth true t <;> rfl
        · rfl
    · rw [itemsFrom, itemsFrom]
      cases nextItem first s with
      | error f => rfl
      | ok next =>
        cases next with
        | inr rest => rfl
        | inl t =>
          dsimp only [bind, Except.bind]
          rw [ihvalue]
          cases valueFrom .document fuel depth t with
          | error f => rfl
          | ok p =>
            dsimp only [Except.map, Prod.map, id_eq]
            rw [ihitems]
            cases itemsFrom .document fuel depth false p.2 <;> rfl
    · rw [membersFrom, membersFrom]
      cases nextMember first s with
      | error f => rfl
      | ok next =>
        cases next with
        | inr rest => rfl
        | inl t =>
          dsimp only [bind, Except.bind]
          cases readName t with
          | error f => rfl
          | ok name =>
            cases hcolon : readColon name.2 with
            | error f => simp only [hcolon, Except.map]
            | ok rest =>
              simp only [hcolon, ihvalue]
              cases valueFrom .document fuel depth rest with
              | error f => rfl
              | ok p =>
                dsimp only [Except.map, Prod.map, id_eq]
                rw [ihmembers]
                cases membersFrom .document fuel depth false p.2 <;> rfl

/-- **Reading with a builder is reading the document and building from it**, with the same
fault if it is refused. -/
theorem readWith_eq_map_read (s : Text) : readWith b s = (read s).map b.build := by
  rw [readWith, read, readWith, readValueWith, readValueWith, (from_eq_map_from b _).1]
  cases valueFrom .document (2 * s.length + 2) maxDepth s with
  | error f => rfl
  | ok p =>
    dsimp only [bind, Except.bind, Except.map, Prod.map, id]
    cases readEnd p.2 <;> rfl

end

end Json

end ConfigTemplate
