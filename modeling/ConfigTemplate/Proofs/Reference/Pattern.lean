/-
Patterns, matched in an order of preference.

A pattern may match the front of a text in several ways.  `Pattern.ways` lists them, the
preferred one first: all ways of the first of two alternatives come before those of the second,
and a longer run comes before a shorter one.

* `head?_runs`: the preferred run is as long as it goes;
* `EnvVar.preferred_eq_envVar?`: a reference to a variable is what `EnvVar.pattern` prefers to
  match, with the second group as its name.
-/
import Mathlib.Data.List.Basic
import ConfigTemplate.Reference.EnvVar

namespace ConfigTemplate

/-- A pattern.  The first of two alternatives is preferred. -/
inductive Pattern where
  /-- A text as it stands. -/
  | word (w : Text)
  /-- One character of a class or more. -/
  | run (accepts : Char → Bool)
  | seq (p q : Pattern)
  | either (p q : Pattern)
  /-- A pattern of which the text is kept. -/
  | group (p : Pattern)

namespace Pattern

/-- A way to match the front of a text. -/
structure Match where
  text : Text
  /-- The texts of the groups, in the order in which they begin. -/
  groups : List Text
  rest : Text

/-- The runs of a class at the front of a text, the longest first. -/
def runs (accepts : Char → Bool) : Text → List Match
  | [] => []
  | c :: s =>
    if accepts c then
      (runs accepts s).map (fun m => { m with text := c :: m.text }) ++ [⟨[c], [], s⟩]
    else []

/-- The ways to match the front of a text, the preferred one first. -/
def ways : Pattern → Text → List Match
  | word w, s => (w.isPrefixOf? s).toList.map fun rest => ⟨w, [], rest⟩
  | run accepts, s => runs accepts s
  | seq p q, s =>
    (p.ways s).flatMap fun m =>
      (q.ways m.rest).map fun n => ⟨m.text ++ n.text, m.groups ++ n.groups, n.rest⟩
  | either p q, s => p.ways s ++ q.ways s
  | group p, s => (p.ways s).map fun m => { m with groups := m.text :: m.groups }

/-- The preferred run is as long as it goes. -/
theorem head?_runs (accepts : Char → Bool) (s : Text) :
    (runs accepts s).head? =
      if s.takeWhile accepts = [] then none
      else some ⟨s.takeWhile accepts, [], s.dropWhile accepts⟩ := by
  induction s with
  | nil => rfl
  | cons c s ih =>
    rw [runs]
    by_cases hc : accepts c = true
    · rw [if_pos hc, List.head?_append, List.head?_map, ih, List.takeWhile_cons_of_pos hc,
        List.dropWhile_cons_of_pos hc]
      by_cases hs : s.takeWhile accepts = []
      · -- A run of one character has no other way.
        have hdrop : s.dropWhile accepts = s := by
          have := List.takeWhile_append_dropWhile (p := accepts) (l := s)
          rwa [hs, List.nil_append] at this
        simp [hs, hdrop]
      · simp [hs]
    · simp [hc]

theorem head?_ways_word_seq (w : Text) (q : Pattern) (s : Text) :
    ((seq (word w) q).ways s).head? = (w.isPrefixOf? s).bind fun rest =>
      (q.ways rest).head?.map fun n => ⟨w ++ n.text, n.groups, n.rest⟩ := by
  rw [ways, ways]
  cases w.isPrefixOf? s <;> simp

theorem head?_ways_group_word_seq (w : Text) (q : Pattern) (s : Text) :
    ((seq (group (word w)) q).ways s).head? = (w.isPrefixOf? s).bind fun rest =>
      (q.ways rest).head?.map fun n => ⟨w ++ n.text, w :: n.groups, n.rest⟩ := by
  rw [ways, ways, ways]
  cases w.isPrefixOf? s <;> simp

/-- Alternatives behind a text are tried one after the other. -/
theorem head?_ways_word_either (w : Text) (p q r : Pattern) (s : Text) :
    ((seq (word w) (seq (group (either p q)) r)).ways s).head? =
      ((seq (word w) (seq (group p) r)).ways s).head?.or
        ((seq (word w) (seq (group q) r)).ways s).head? := by
  have hways : (seq (group (either p q)) r).ways =
      fun s => (seq (group p) r).ways s ++ (seq (group q) r).ways s := by
    funext s
    simp only [ways, List.map_append, List.flatMap_append]
  rw [head?_ways_word_seq, head?_ways_word_seq, head?_ways_word_seq, hways]
  cases w.isPrefixOf? s with
  | none => rfl
  | some rest =>
    simp only [Option.bind_some, List.head?_append]
    cases ((seq (group p) r).ways rest).head? <;> rfl

end Pattern

theorem isPrefixOf?_append (a b s : Text) :
    (a ++ b).isPrefixOf? s = (a.isPrefixOf? s).bind (b.isPrefixOf? ·) := by
  induction a generalizing s with
  | nil => rfl
  | cons c a ih =>
    rcases s with _ | ⟨d, s⟩
    · rfl
    · by_cases hcd : c = d
      · simp [List.isPrefixOf?, hcd, ih]
      · simp [List.isPrefixOf?, hcd]

namespace EnvVar

open Pattern

/-- The pattern of a reference with one of two words behind the dollar sign. -/
def pattern : Pattern :=
  .seq (.word ['$']) (.seq (.group (.either (.word ['q']) (.word "quill".toList)))
    (.seq (.word ['_']) (.group (.run isNameChar))))

/-- The reference that a way to match the pattern stands for: the second group is its name. -/
def reference (m : Match) : Lexeme :=
  ⟨.envVar, path (m.groups.getD 1 []), m.text⟩

/-- The reference that the pattern prefers in front of a text. -/
def preferred : Recogniser := fun s =>
  (pattern.ways s).head?.map reference

/-- With one word behind the dollar sign, the longest name is preferred. -/
theorem map_reference_ways_word (w s : Text) :
    ((ways (.seq (.word ['$']) (.seq (.group (.word w))
      (.seq (.word ['_']) (.group (.run isNameChar))))) s).head?.map reference) =
      withPrefix (['$'] ++ (w ++ ['_'])) s := by
  rw [withPrefix, isPrefixOf?_append, head?_ways_word_seq]
  cases List.isPrefixOf? ['$'] s with
  | none => rfl
  | some s₁ =>
    simp only [Option.bind_some, isPrefixOf?_append, head?_ways_group_word_seq]
    cases List.isPrefixOf? w s₁ with
    | none => rfl
    | some s₂ =>
      simp only [Option.bind_some, head?_ways_word_seq]
      cases List.isPrefixOf? ['_'] s₂ with
      | none => rfl
      | some s₃ =>
        simp only [Option.bind_some, ways, List.head?_map, head?_runs, List.isEmpty_iff]
        split
        · rfl
        · simp [reference]

/-- **A reference to a variable is what the pattern prefers.** -/
theorem preferred_eq_envVar? : preferred = envVar? := by
  funext s
  have hshort : ['$'] ++ (['q'] ++ ['_']) = "$q_".toList := rfl
  have hlong : ['$'] ++ ("quill".toList ++ ['_']) = "$quill_".toList := rfl
  rw [preferred, pattern, head?_ways_word_either, Option.map_or, map_reference_ways_word,
    map_reference_ways_word, hshort, hlong, envVar?, prefixes, List.findSome?_cons,
    List.findSome?_cons, List.findSome?_nil]
  cases withPrefix "$q_".toList s with
  | none => cases withPrefix "$quill_".toList s <;> rfl
  | some x => rfl

end EnvVar

end ConfigTemplate
