/-
What a template needs when there is no configuration.

Nothing leads anywhere, so that everything required is fatal.  A reference requires its own
path, and, of the references inside it, the one that is resolved first.

* `Context.ofExcept_resolvePath_nil`: resolving a path fails at the first reference inside it in
  post-order, which has none inside itself;
* `Context.mem_requiredBy_nil_iff`: so a token requires its path and that reference;
* `required_unconfigured`: these are the required and the fatal keys of a template, and no
  reference is left out where all those inside a token without references of their own have one
  path;
* `side_by_side_left_out`: of two references beside each other the second one is left out.
-/
import ConfigTemplate.Proofs.Inventory.Buckets
import ConfigTemplate.Proofs.Inventory.Keys

namespace ConfigTemplate

/-! ### The first reference inside a path -/

namespace Path

variable {p q : Path} {parts : List Part}

theorem mem_postorderParts_iff :
    q ∈ postorderParts parts ↔ ∃ p, .ref p ∈ parts ∧ (q ∈ p.postorder ∨ q = p) := by
  induction parts with
  | nil => simp [postorderParts]
  | cons part parts ih =>
    cases part with
    | text t => simp [postorderParts, ih]
    | ref p =>
      simp only [postorderParts, List.mem_append, List.mem_cons, ih, Part.ref.injEq]
      constructor
      · rintro (hq | rfl | ⟨r, hr, hq⟩)
        · exact ⟨p, .inl rfl, .inl hq⟩
        · exact ⟨q, .inl rfl, .inr rfl⟩
        · exact ⟨r, .inr hr, hq⟩
      · rintro ⟨r, rfl | hr, hq⟩
        · exact hq.imp_right .inl
        · exact .inr (.inr ⟨r, hr, hq⟩)

theorem Scanned.of_mem_postorder (h : p.Scanned) (hq : q ∈ p.postorder) : q.Scanned := by
  induction h with
  | literal u => cases hq
  | nested _ _ hrefs ih =>
    obtain ⟨r, hr, hq | rfl⟩ := mem_postorderParts_iff.mp hq
    · exact ih r hr hq
    · exact hrefs q hr

theorem postorder_eq_nil_iff : p.postorder = [] ↔ p.isNested = false := by
  obtain ⟨raw, parts⟩ := p
  rw [postorder]
  induction parts with
  | nil => simp [postorderParts, isNested]
  | cons part parts ih =>
    cases part with
    | text t => exact ih
    | ref r => simp [postorderParts, isNested]

theorem isNested_of_head?_postorder (h : p.postorder.head? = some q) : q.isNested = false := by
  induction p with
  | mk raw parts ih =>
    rw [postorder] at h
    induction parts with
    | nil => cases h
    | cons part parts ihparts =>
      cases part with
      | text t => exact ihparts (fun r hr => ih r (List.mem_cons_of_mem _ hr)) h
      | ref r =>
        rw [postorderParts, List.head?_append, List.head?_cons] at h
        cases hr : r.postorder.head? with
        | some x =>
          rw [hr, Option.some_or] at h
          exact ih r List.mem_cons_self (hr.trans h)
        | none =>
          rw [hr, Option.none_or, Option.some.injEq] at h
          exact postorder_eq_nil_iff.mp (h ▸ List.head?_eq_none_iff.mp hr)

end Path

namespace Context

theorem failure?_literal_nil (u : Text) : failure? [] (.literal u) = some ⟨u.trim⟩ := by
  rw [failure?, resolvePath_literal]
  simp [find, Missing.ofExcept]

/-- **Without a configuration a path misses the first reference inside it.** -/
theorem ofExcept_resolvePath_nil {p : Path} (hp : p.Scanned) :
    Missing.ofExcept (resolvePath [] p) = p.postorder.head?.map fun q => ⟨q.raw⟩ := by
  rw [ofExcept_resolvePath]
  rcases hq : p.postorder with _ | ⟨q, qs⟩
  · rfl
  · have hscanned : q.Scanned := hp.of_mem_postorder (hq ▸ List.mem_cons_self)
    have hplain : q.isNested = false := Path.isNested_of_head?_postorder (by rw [hq]; rfl)
    obtain ⟨u, rfl⟩ := hscanned.literal_of_not_nested hplain
    rw [List.findSome?_cons, failure?_literal_nil]
    rfl

theorem resolvePath_nil {p : Path} (hp : p.Scanned) :
    resolvePath [] p = match p.postorder.head? with
      | some q => .error ⟨q.raw⟩
      | none => .ok p.raw := by
  have hmissing := ofExcept_resolvePath_nil hp
  cases hq : p.postorder.head? with
  | some q =>
    rw [hq] at hmissing
    exact Missing.ofExcept_eq_some_iff.mp hmissing
  | none =>
    have hplain := Path.postorder_eq_nil_iff.mp (List.head?_eq_none_iff.mp hq)
    obtain ⟨u, rfl⟩ := hp.literal_of_not_nested hplain
    exact resolvePath_literal [] u

/-- **Without a configuration a token requires its path**, and the first reference inside it. -/
theorem mem_requiredBy_nil_iff {t : Token} (ht : t.path.Scanned) {key : Text} :
    key ∈ requiredBy [] t ↔ t.isSection = false ∧ t.path.raw ≠ current ∧
      (key = t.path.raw ∨ ∃ q, t.path.postorder.head? = some q ∧ key = q.raw) := by
  rw [requiredBy, resolvePath_nil ht]
  cases t.isSection with
  | true => simp
  | false =>
    by_cases hraw : t.path.raw = current
    · simp [hraw]
    · cases t.path.postorder.head? with
      | some q => simp [hraw, or_comm]
      | none => simp [hraw]

end Context

/-! ### Whole templates -/

/-- **Without a configuration everything required is fatal**, and it consists of the path of
each reference and of the first reference inside it.  So a reference without others inside it
is required if the references of this kind in its token all have the same path. -/
theorem required_unconfigured (source : Text) :
    let a := extract .placeholders source none
    a.fatal.records = a.required.records ∧
    (∀ key, key ∈ a.required.keys ↔ ∃ t ∈ (placeholders source).tokens,
      t.isSection = false ∧ t.path.raw ≠ Context.current ∧
        (key = t.path.raw ∨ ∃ q, t.path.postorder.head? = some q ∧ key = q.raw)) ∧
    ∀ t ∈ (placeholders source).tokens, t.isSection = false → t.path.raw ≠ Context.current →
      ∀ q ∈ t.path.postorder, q.isNested = false →
        (∀ r ∈ t.path.postorder, r.isNested = false → r.raw = q.raw) →
          q.raw ∈ a.required.keys := by
  have hkeys : ∀ key, key ∈ (extract .placeholders source none).required.keys ↔
      ∃ t ∈ (placeholders source).tokens, t.isSection = false ∧ t.path.raw ≠ Context.current ∧
        (key = t.path.raw ∨ ∃ q, t.path.postorder.head? = some q ∧ key = q.raw) := by
    intro key
    rw [mem_required_extract_iff]
    exact exists_congr fun t => and_congr_right fun ht =>
      Context.mem_requiredBy_nil_iff (ReferenceStyle.scanned_of_mem_references ht)
  refine ⟨congrArg KeySet.records (bucket_of_unfound Bucket.fatal_unfound), hkeys, ?_⟩
  intro t ht hs hraw q hq hplain hall
  refine (hkeys q.raw).mpr ⟨t, ht, hs, hraw, .inr ?_⟩
  obtain ⟨r, rs, hrs⟩ := List.exists_cons_of_ne_nil (List.ne_nil_of_mem hq)
  have hr : t.path.postorder.head? = some r := by rw [hrs]; rfl
  exact ⟨r, hr, (hall r (List.mem_of_mem_head? hr) (Path.isNested_of_head?_postorder hr)).symm⟩

/-- Two references beside each other inside a path. -/
def sideBySide : Text :=
  "\x7b\x7b a.\x7b\x7b b \x7d\x7d\x7b\x7b c \x7d\x7d \x7d\x7d".toList

/-- The second one is left out. -/
theorem side_by_side_left_out :
    ∃ t ∈ (placeholders sideBySide).tokens, t.isSection = false ∧ t.path.raw ≠ Context.current ∧
      ∃ q ∈ t.path.postorder, q.isNested = false ∧
        q.raw ∉ (extract .placeholders sideBySide none).required.keys := by
  have htokens : (placeholders sideBySide).tokens =
      [⟨.composed, ⟨"a.\x7b\x7b b \x7d\x7d\x7b\x7b c \x7d\x7d".toList,
        [.text "a.".toList, .ref (.literal "b ".toList), .ref (.literal "c ".toList),
          .text [' ']]⟩, sideBySide, ⟨1, 0⟩⟩] := by
    decide +kernel
  have hkeys : (extract .placeholders sideBySide none).required.keys =
      ["b".toList, "a.\x7b\x7b b \x7d\x7d\x7b\x7b c \x7d\x7d".toList] := by
    decide +kernel
  refine ⟨_, htokens ▸ List.mem_cons_self, rfl, by decide, .literal "c ".toList, ?_, rfl, ?_⟩
  · exact List.mem_cons_of_mem _ List.mem_cons_self
  · rw [hkeys]
    decide +kernel

end ConfigTemplate
