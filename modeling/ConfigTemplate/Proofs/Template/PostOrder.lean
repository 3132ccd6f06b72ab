/-
Nested references are resolved in post-order.

The references inside a path are listed from left to right, each behind those inside it.

* `resolvePath_eq_ok_iff`: a path resolves to the dotted path that it stands for, which is said
  without the order in which references are resolved;
* `ofExcept_resolvePath`: it fails at the first of the listed references that lead nowhere;
* `resolvePath_postorder` puts the two together.

Design notes: a reference stands for a dotted path only if all references inside it lead
somewhere, so one that cannot be spelled does not fail itself.  One that does stands before it
in the list.
-/
import ConfigTemplate.Proofs.Template.References

namespace ConfigTemplate

namespace Path

mutual

/-- The references inside a path, each behind those inside it. -/
def postorder : Path → List Path
  | ⟨_, parts⟩ => postorderParts parts

/-- The references of parts in a row, each behind those inside it. -/
def postorderParts : List Part → List Path
  | [] => []
  | .text _ :: ps => postorderParts ps
  | .ref p :: ps => p.postorder ++ p :: postorderParts ps

end

end Path

/-! ### Outcomes -/

namespace Missing

variable {α β γ : Type}

/-- What a failed resolution misses. -/
def ofExcept : Except Missing α → Option Missing
  | .ok _ => none
  | .error m => some m

theorem ofExcept_eq_some_iff {r : Except Missing α} {m : Missing} :
    ofExcept r = some m ↔ r = .error m := by
  cases r <;> simp [ofExcept]

theorem ofExcept_map (f : α → β) (r : Except Missing α) : ofExcept (r.map f) = ofExcept r := by
  cases r <;> rfl

theorem ofExcept_bind_map (r : Except Missing α) (r' : Except Missing β) (f : α → β → γ) :
    ofExcept (r.bind fun a => r'.map (f a)) = (ofExcept r).or (ofExcept r') := by
  cases r with
  | ok a => exact ofExcept_map (f a) r'
  | error m => rfl

theorem map_eq_ok_iff {f : α → β} {r : Except Missing α} {b : β} :
    r.map f = .ok b ↔ ∃ a, r = .ok a ∧ f a = b := by
  cases r <;> simp [Except.map]

theorem bind_eq_ok_iff {f : α → Except Missing β} {r : Except Missing α} {b : β} :
    r.bind f = .ok b ↔ ∃ a, r = .ok a ∧ f a = .ok b := by
  cases r <;> simp [Except.bind]

end Missing

namespace Context

mutual

/-- `StandsFor frames p key`: with the text of a value in the place of each reference, and
without the blanks around, the path is `key`. -/
inductive StandsFor (frames : Context) : Path → Text → Prop
  | trim {raw s : Text} {parts : List Part} (h : Spells frames parts s) :
      StandsFor frames ⟨raw, parts⟩ s.trim

/-- `Spells frames parts s`: the parts are `s`, with the text of a value in the place of each
reference. -/
inductive Spells (frames : Context) : List Part → Text → Prop
  | nil : Spells frames [] []
  | text {t s : Text} {parts : List Part} (h : Spells frames parts s) :
      Spells frames (.text t :: parts) (t ++ s)
  | ref {p : Path} {key s : Text} {v : Tree} {parts : List Part} (hp : StandsFor frames p key)
      (hv : frames.lookup key = some v) (h : Spells frames parts s) :
      Spells frames (.ref p :: parts) (v.text ++ s)

end

/-- Whether a reference stands for a dotted path that leads nowhere. -/
def Fails (frames : Context) (p : Path) (key : Text) : Prop :=
  StandsFor frames p key ∧ frames.lookup key = none

/-! ### One step of resolution -/

section

variable (frames : Context)

theorem resolvePath_eq (p : Path) :
    frames.resolvePath p = (frames.splice p.parts).map Text.trim := by
  obtain ⟨raw, parts⟩ := p
  rw [resolvePath]
  cases frames.splice parts <;> rfl

theorem splice_text (t : Text) (parts : List Part) :
    frames.splice (.text t :: parts) = (frames.splice parts).map (t ++ ·) := by
  rw [splice]
  cases frames.splice parts <;> rfl

theorem splice_ref (p : Path) (parts : List Part) :
    frames.splice (.ref p :: parts) =
      (frames.resolve p).bind fun v => (frames.splice parts).map (v.text ++ ·) := by
  rw [splice, resolve]
  cases h : frames.resolvePath p with
  | error m => rfl
  | ok key =>
    cases hv : frames.find key with
    | error m => simp [bind, Except.bind, hv]
    | ok v => cases frames.splice parts <;> simp [bind, Except.bind, Except.map, hv]

theorem splice_append (ps qs : List Part) :
    frames.splice (ps ++ qs) =
      (frames.splice ps).bind fun s => (frames.splice qs).map (s ++ ·) := by
  induction ps with
  | nil =>
    rw [List.nil_append, splice]
    cases frames.splice qs <;> rfl
  | cons part ps ih =>
    cases part with
    | text t =>
      rw [List.cons_append, splice_text, splice_text, ih]
      cases frames.splice ps <;> cases frames.splice qs <;> simp [Except.bind, Except.map]
    | ref p =>
      rw [List.cons_append, splice_ref, splice_ref, ih]
      cases frames.resolve p <;> cases frames.splice ps <;> cases frames.splice qs <;>
        simp [Except.bind, Except.map]

theorem splice_append_text (ps : List Part) (t : Text) :
    frames.splice (ps ++ [.text t]) = (frames.splice ps).map (· ++ t) := by
  rw [splice_append, splice_text, splice]
  cases frames.splice ps <;> simp [Except.bind, Except.map]

end

section

variable {frames : Context}

theorem standsFor_iff {p : Path} {key : Text} :
    StandsFor frames p key ↔ ∃ s, Spells frames p.parts s ∧ s.trim = key := by
  constructor
  · rintro ⟨h⟩
    exact ⟨_, h, rfl⟩
  · obtain ⟨raw, parts⟩ := p
    rintro ⟨s, h, rfl⟩
    exact .trim h

/-! ### What a path stands for -/

theorem resolve_eq_ok_iff {p : Path} {v : Tree} :
    frames.resolve p = .ok v ↔
      ∃ key, frames.resolvePath p = .ok key ∧ frames.lookup key = some v := by
  constructor
  · exact exists_key_of_resolve
  · rintro ⟨key, hp, hv⟩
    rw [resolve_of_resolvePath hp, find_eq_ok_iff.mpr hv]

theorem splice_eq_ok_iff_of {parts : List Part}
    (hrefs : ∀ p, .ref p ∈ parts → ∀ key,
      frames.resolvePath p = .ok key ↔ StandsFor frames p key) {s : Text} :
    frames.splice parts = .ok s ↔ Spells frames parts s := by
  induction parts generalizing s with
  | nil =>
    rw [splice, Except.ok.injEq]
    constructor
    · rintro rfl
      exact .nil
    · rintro ⟨⟩
      rfl
  | cons part parts ih =>
    have hrest := fun s => @ih (fun p hp => hrefs p (List.mem_cons_of_mem _ hp)) s
    cases part with
    | text t =>
      rw [splice_text, Missing.map_eq_ok_iff]
      constructor
      · rintro ⟨s, hs, rfl⟩
        exact .text ((hrest s).mp hs)
      · intro hspells
        cases hspells with
        | text h => exact ⟨_, (hrest _).mpr h, rfl⟩
    | ref p =>
      have hp := hrefs p List.mem_cons_self
      rw [splice_ref, Missing.bind_eq_ok_iff]
      constructor
      · rintro ⟨v, hresolve, hmap⟩
        obtain ⟨key, hkey, hv⟩ := resolve_eq_ok_iff.mp hresolve
        obtain ⟨s, hs, rfl⟩ := Missing.map_eq_ok_iff.mp hmap
        exact .ref ((hp key).mp hkey) hv ((hrest s).mp hs)
      · intro hspells
        cases hspells with
        | ref hkey hv h =>
          refine ⟨_, resolve_eq_ok_iff.mpr ⟨_, (hp _).mpr hkey, hv⟩, ?_⟩
          exact Missing.map_eq_ok_iff.mpr ⟨_, (hrest _).mpr h, rfl⟩

/-- **A path resolves to what it stands for.** -/
theorem resolvePath_eq_ok_iff {p : Path} {key : Text} :
    frames.resolvePath p = .ok key ↔ StandsFor frames p key := by
  induction p generalizing key with
  | mk raw parts ih =>
    rw [resolvePath_eq, standsFor_iff, Missing.map_eq_ok_iff]
    exact exists_congr fun s => and_congr_left fun _ =>
      splice_eq_ok_iff_of fun p hp key => ih p hp

/-! ### The first reference that fails -/

/-- The dotted path that a reference stands for, if it leads nowhere. -/
def failure? (frames : Context) (p : Path) : Option Missing :=
  match frames.resolvePath p with
  | .ok key => Missing.ofExcept (frames.find key)
  | .error _ => none

theorem find_eq_error_iff {key : Text} {m : Missing} :
    frames.find key = .error m ↔ m.path = key ∧ frames.lookup key = none := by
  obtain ⟨path⟩ := m
  cases h : frames.lookup key with
  | none => simp [find, h, eq_comm]
  | some v => simp [find, h]

theorem failure?_eq_some_iff {p : Path} {m : Missing} :
    failure? frames p = some m ↔ Fails frames p m.path := by
  rw [Fails, ← resolvePath_eq_ok_iff, failure?]
  cases h : frames.resolvePath p with
  | error m' => simp
  | ok key =>
    simp only [Missing.ofExcept_eq_some_iff, find_eq_error_iff, Except.ok.injEq]
    constructor
    · rintro ⟨rfl, hnone⟩
      exact ⟨rfl, hnone⟩
    · rintro ⟨rfl, hnone⟩
      exact ⟨rfl, hnone⟩

theorem isSome_failure?_iff {p : Path} :
    (failure? frames p).isSome = true ↔ ∃ key, Fails frames p key := by
  rw [Option.isSome_iff_exists]
  constructor
  · rintro ⟨m, hm⟩
    exact ⟨m.path, failure?_eq_some_iff.mp hm⟩
  · rintro ⟨key, hfails⟩
    exact ⟨⟨key⟩, failure?_eq_some_iff.mpr hfails⟩

theorem failure?_eq_none_iff {p : Path} :
    failure? frames p = none ↔ ∀ key, ¬ Fails frames p key := by
  rw [← not_exists, ← isSome_failure?_iff, Option.not_isSome_iff_eq_none]

/-- Resolving a reference misses what its path misses, or else what it stands for. -/
theorem ofExcept_resolve (frames : Context) (p : Path) :
    Missing.ofExcept (frames.resolve p) =
      (Missing.ofExcept (frames.resolvePath p)).or (failure? frames p) := by
  unfold failure?
  cases h : frames.resolvePath p with
  | ok key => simp [resolve_of_resolvePath h, Missing.ofExcept]
  | error m => simp [resolve_of_resolvePath_error h, Missing.ofExcept]

theorem ofExcept_splice_of {parts : List Part}
    (hrefs : ∀ p, .ref p ∈ parts → Missing.ofExcept (frames.resolvePath p) =
      p.postorder.findSome? (failure? frames)) :
    Missing.ofExcept (frames.splice parts) =
      (Path.postorderParts parts).findSome? (failure? frames) := by
  induction parts with
  | nil => rfl
  | cons part parts ih =>
    have hrest := ih fun p hp => hrefs p (List.mem_cons_of_mem _ hp)
    cases part with
    | text t => rw [splice_text, Missing.ofExcept_map, hrest, Path.postorderParts]
    | ref p =>
      rw [splice_ref, Missing.ofExcept_bind_map, ofExcept_resolve, hrefs p List.mem_cons_self,
        hrest, Path.postorderParts, List.findSome?_append, List.findSome?_cons, Option.or_assoc]
      cases failure? frames p <;> rfl

/-- **A path misses what the first failing reference stands for**, in the order of the list. -/
theorem ofExcept_resolvePath (frames : Context) (p : Path) :
    Missing.ofExcept (frames.resolvePath p) = p.postorder.findSome? (failure? frames) := by
  induction p with
  | mk raw parts ih =>
    rw [resolvePath_eq, Missing.ofExcept_map, Path.postorder]
    exact ofExcept_splice_of ih

/-- What is named as missing leads nowhere. -/
theorem lookup_of_resolvePath_error {p : Path} {m : Missing}
    (h : frames.resolvePath p = .error m) : frames.lookup m.path = none := by
  rw [← Missing.ofExcept_eq_some_iff, ofExcept_resolvePath] at h
  obtain ⟨q, -, hq⟩ := List.exists_of_findSome?_eq_some h
  exact (failure?_eq_some_iff.mp hq).2

end

/-- **Nested references are resolved in post-order.**  A path fails to resolve if and only if
a reference inside it stands for a dotted path that leads nowhere, and the first such reference
is the one that is named.  Otherwise the path resolves to its text, with the text of a value
in the place of each reference and without the blanks around, and looking it up fails only
by naming that. -/
theorem resolvePath_postorder (frames : Context) (e : Path) :
    (∀ m, frames.resolvePath e = .error m ↔
      ∃ before p after, e.postorder = before ++ p :: after ∧ Fails frames p m.path ∧
        ∀ q ∈ before, ∀ key, ¬ Fails frames q key) ∧
    ((∃ m, frames.resolvePath e = .error m) ↔ ∃ p ∈ e.postorder, ∃ key, Fails frames p key) ∧
    ((∃ p ∈ e.postorder, ∃ key, Fails frames p key) ∨
      ∃ s, Spells frames e.parts s ∧ frames.resolvePath e = .ok s.trim ∧
        ∀ m, frames.resolve e = .error m ↔ m.path = s.trim ∧ frames.lookup s.trim = none) := by
  have hfirst : ∀ m, frames.resolvePath e = .error m ↔
      ∃ before p after, e.postorder = before ++ p :: after ∧ Fails frames p m.path ∧
        ∀ q ∈ before, ∀ key, ¬ Fails frames q key := by
    intro m
    rw [← Missing.ofExcept_eq_some_iff, ofExcept_resolvePath, List.findSome?_eq_some_iff]
    simp only [failure?_eq_some_iff, failure?_eq_none_iff]
  have hany : (∃ m, frames.resolvePath e = .error m) ↔
      ∃ p ∈ e.postorder, ∃ key, Fails frames p key := by
    simp only [← Missing.ofExcept_eq_some_iff, ofExcept_resolvePath, ← isSome_failure?_iff,
      ← Option.isSome_iff_exists, List.findSome?_isSome_iff]
  refine ⟨hfirst, hany, ?_⟩
  cases h : frames.resolvePath e with
  | error m => exact .inl (hany.mp ⟨m, h⟩)
  | ok key =>
    obtain ⟨s, hs, rfl⟩ := standsFor_iff.mp (resolvePath_eq_ok_iff.mp h)
    refine .inr ⟨s, hs, rfl, fun m => ?_⟩
    rw [resolve_of_resolvePath h, find_eq_error_iff]

/-- Of two references that fail, the one inside another comes first: `b` is `1`, and there is
neither `x1` nor `c`. -/
example :
    resolvePath [.map [("b".toList, .string "1".toList)]]
      ⟨[], [.text "a".toList,
        .ref ⟨[], [.text "x".toList, .ref (.literal "b".toList), .text " ".toList]⟩,
        .ref (.literal "c".toList)]⟩ =
      .error ⟨"x1".toList⟩ := by
  rfl

end Context

end ConfigTemplate
