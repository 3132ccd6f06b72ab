/-
Sets of keys in the order they were first seen.

A `Record` remembers where a key was seen, and a `KeySet` holds at most one
record for each key: the first that was inserted.
-/
import ConfigTemplate.Text.Basic

namespace ConfigTemplate

/-- Where a key was first seen. -/
structure Record where
  key : Text
  line : Nat
  /-- The whole line. -/
  text : Text
  deriving DecidableEq, Repr

/-- A set of keys, each with its first record. -/
structure KeySet where
  records : List Record
  distinct : (records.map Record.key).Nodup

namespace KeySet

@[ext] theorem ext {s t : KeySet} (h : s.records = t.records) : s = t := by
  cases s
  cases t
  subst h
  rfl

/-- The set without keys. -/
def empty : KeySet := ⟨[], List.nodup_nil⟩

/-- The keys, in the order in which they were first seen. -/
def keys (s : KeySet) : List Text :=
  s.records.map Record.key

/-- Whether a key was seen. -/
def contains (s : KeySet) (key : Text) : Bool :=
  s.keys.contains key

/-- The record of a key, if it was seen. -/
def get? (s : KeySet) (key : Text) : Option Record :=
  s.records.find? (·.key = key)

/-- Add a record unless its key is there. -/
def insert (s : KeySet) (r : Record) : KeySet :=
  if h : r.key ∈ s.keys then s
  else ⟨s.records ++ [r], by
    rw [List.map_append, List.nodup_append]
    refine ⟨s.distinct, by simp, fun a ha b hb => ?_⟩
    rw [List.map_singleton, List.mem_singleton] at hb
    exact fun hab => h (hb ▸ hab ▸ ha)⟩

/-- Add every record of another set whose key is not there. -/
def extend (s t : KeySet) : KeySet :=
  t.records.foldl insert s

/-- Whether two sets have the same records, in whatever order. -/
def sameAs (s t : KeySet) : Bool :=
  s.records.length = t.records.length && s.records.all (· ∈ t.records)

@[simp] theorem records_empty : empty.records = [] := rfl

theorem insert_of_mem {s : KeySet} {r : Record} (h : r.key ∈ s.keys) : s.insert r = s := by
  simp [insert, h]

theorem records_insert_of_not_mem {s : KeySet} {r : Record} (h : r.key ∉ s.keys) :
    (s.insert r).records = s.records ++ [r] := by
  simp [insert, h]

theorem contains_iff {s : KeySet} {key : Text} : s.contains key = true ↔ key ∈ s.keys := by
  simp [contains]

end KeySet

end ConfigTemplate
