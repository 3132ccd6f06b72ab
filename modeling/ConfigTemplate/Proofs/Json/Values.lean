/-
Reading the values of a document, step by step.

Each statement is about one step of a reader on a text as it is laid out, with anything behind
it, whatever is built from what is read.

* `valueFrom_nullText`, `valueFrom_boolText`, `valueFrom_quote`, `valueFrom_number`: scalars;
* `itemsFrom_cons`, `membersFrom_cons`: a child and the children after it;
* `nextItem_child`, `nextMember_child`: going on to the line of a child;
* `ofJsonText_number_iff`: a number is what its text is read as if the reader of numerals goes
  to its end, so that every integer is (`ofJsonText_int`).
-/
import ConfigTemplate.Proofs.Json.Nesting
import ConfigTemplate.Proofs.Json.Numerals
import ConfigTemplate.Proofs.Json.Strings

namespace ConfigTemplate

namespace Json

/-! ### White space -/

theorem skipSpace_cons {c : Char} (h : isSpace c = false) (s : Text) :
    skipSpace (c :: s) = c :: s :=
  List.dropWhile_cons_of_neg (by simp [h])

theorem skipSpace_newline (n : Nat) (s : Text) : skipSpace (newline n ++ s) = skipSpace s :=
  List.dropWhile_append_of_pos (by simp [newline, isSpace])

theorem endsNumeral_newline (n : Nat) (s : Text) : EndsNumeral (newline n ++ s) :=
  endsNumeral_cons.mpr (by decide)

section

variable {α : Type} {b : Builder α} {fuel depth : Nat}

/-- Blanks before a value are passed over. -/
theorem valueFrom_blank (s : Text) :
    valueFrom b (fuel + 1) depth (' ' :: s) = valueFrom b (fuel + 1) depth s := by
  have hskip : skipSpace (' ' :: s) = skipSpace s := rfl
  rw [valueFrom, valueFrom, hskip]

/-! ### Scalars -/

theorem valueFrom_nullText (r : Text) :
    valueFrom b (fuel + 1) depth (nullText ++ r) = .ok (b.null, r) := rfl

theorem valueFrom_boolText (x : Bool) (r : Text) :
    valueFrom b (fuel + 1) depth (boolText x ++ r) = .ok (b.bool x, r) := by
  cases x <;> rfl

theorem quote_append (s r : Text) : quote s ++ r = '"' :: (s.flatMap escape ++ '"' :: r) := by
  simp [quote]

theorem valueFrom_quote (s r : Text) :
    valueFrom b (fuel + 1) depth (quote s ++ r) = .ok (b.string s, r) := by
  rw [quote_append]
  show (readString (s.flatMap escape ++ '"' :: r) >>= fun p => .ok (b.string p.1, p.2)) = _
  rw [readString_quoted]
  rfl

theorem valueFrom_numeral {c : Char} (h : c = '-' ∨ c.isDigit = true) (s : Text) :
    valueFrom b (fuel + 1) depth (c :: s) =
      (readNumeral (c :: s)).map (Prod.map b.number id) := by
  rcases h with rfl | h
  · show (readNumber true s >>= fun p => .ok (b.number p.1, p.2)) = (readNumber true s).map _
    cases readNumber true s <;> rfl
  · have hne : ∀ {d : Char}, d.isDigit = false → c ≠ d := by
      rintro d hd rfl
      simp [h] at hd
    have hspace : isSpace c = false := by
      simp [isSpace, hne (d := ' ') rfl, hne (d := '\n') rfl, hne (d := '\t') rfl,
        hne (d := '\r') rfl]
    rw [valueFrom, skipSpace_cons hspace, readNumeral_of_ne (hne rfl)]
    dsimp only
    rw [if_neg (hne rfl), if_neg (hne rfl), if_neg (hne rfl), if_neg (hne rfl), if_pos h]
    cases readNumber false (c :: s) <;> rfl

/-- A number that is read back from its text is so whatever follows. -/
theorem valueFrom_number {n : Number} (h : readNumeral n.text = .ok (n, [])) {r : Text}
    (hr : EndsNumeral r) :
    valueFrom b (fuel + 1) depth (n.text ++ r) = .ok (b.number n, r) := by
  have happend := (steady_readNumeral _ _ _ h).2 r hr
  obtain ⟨c, s, hn, hc⟩ := n.exists_first_of_text
  rw [hn] at happend ⊢
  rw [List.cons_append, valueFrom_numeral hc, ← List.cons_append, happend]
  rfl

end

/-- **A number is what its text is read as** if the reader of numerals goes to its end. -/
theorem ofJsonText_number_iff {n : Number} :
    Tree.ofJsonText n.text = .ok (.number n) ↔ readNumeral n.text = .ok (n, []) := by
  obtain ⟨c, s, hn, hc⟩ := n.exists_first_of_text
  have hvalue : valueFrom Tree.builder (2 * n.text.length + 2) maxDepth n.text =
      (readNumeral n.text).map (Prod.map .number id) := by
    rw [hn]
    exact valueFrom_numeral hc s
  rw [Tree.ofJsonText_eq_readWith, readWith, readValueWith, hvalue]
  constructor
  · intro h
    obtain ⟨_, hmap, h⟩ := Fault.bind_eq_ok_iff.mp h
    cases hread : readNumeral n.text with
    | error f => simp [hread, Except.map] at hmap
    | ok p =>
      obtain ⟨m, rest⟩ := p
      rw [hread] at hmap
      cases hmap
      obtain ⟨_, hend, h⟩ := Fault.bind_eq_ok_iff.mp h
      cases h
      -- There is no white space to be left over.
      have hrest : rest = [] := by
        cases rest with
        | nil => rfl
        | cons d t =>
          have hsuffix := (steady_readNumeral _ _ _ hread).1
          have hd := Number.isSpace_of_mem_text (hsuffix.subset List.mem_cons_self)
          simp [readEnd, skipSpace_cons hd, refuse] at hend
      rw [hrest]
  · intro h
    rw [h]
    rfl

/-- **Every integer is read back.** -/
theorem ofJsonText_int (n : Int) (h : -0x8000000000000000 ≤ n ∧ n < 0x10000000000000000) :
    Tree.ofJsonText (Number.int n h).text = .ok (.number (.int n h)) :=
  ofJsonText_number_iff.mpr (readNumeral_int n h)

/-! ### What comes next in a container -/

theorem nextItem_close (first : Bool) (n : Nat) (r : Text) :
    nextItem first (newline n ++ ']' :: r) = .ok (.inr r) := by
  rw [nextItem, skipSpace_newline]
  rfl

theorem nextMember_close (first : Bool) (n : Nat) (r : Text) :
    nextMember first (newline n ++ '\x7d' :: r) = .ok (.inr r) := by
  rw [nextMember, skipSpace_newline]
  rfl

/-- Whether a text begins neither with white space nor with a bracket that closes. -/
def BeginsChild (s : Text) : Prop :=
  ∃ c t, s = c :: t ∧ isSpace c = false ∧ c ≠ ']' ∧ c ≠ '\x7d'

theorem beginsChild_quote (s r : Text) : BeginsChild (quote s ++ r) :=
  ⟨'"', _, quote_append s r, rfl, by decide, by decide⟩

theorem beginsChild_text (n : Number) (r : Text) : BeginsChild (n.text ++ r) := by
  obtain ⟨c, s, hn, hc⟩ := n.exists_first_of_text
  refine ⟨c, s ++ r, by rw [hn, List.cons_append], ?_⟩
  have hspace : isSpace c = false := Number.isSpace_of_mem_text (hn ▸ List.mem_cons_self)
  refine ⟨hspace, ?_, ?_⟩ <;> rintro rfl <;> exact absurd hc (by decide)

theorem beginsChild_prettyAt (n : Nat) (t : Tree) (r : Text) :
    BeginsChild (t.prettyAt n ++ r) := by
  cases t with
  | null => exact ⟨'n', _, rfl, rfl, by decide, by decide⟩
  | bool x => cases x <;> exact ⟨_, _, rfl, rfl, by decide, by decide⟩
  | number m => exact beginsChild_text m r
  | string s => exact beginsChild_quote s r
  | list items => cases items <;> exact ⟨'[', _, rfl, rfl, by decide, by decide⟩
  | map entries => cases entries <;> exact ⟨'\x7b', _, rfl, rfl, by decide, by decide⟩

/-- What stands before the line of a child: a comma unless it is the first. -/
def lead : Bool → Text
  | true => []
  | false => [',']

theorem nextItem_child {s : Text} (h : BeginsChild s) (first : Bool) (n : Nat) :
    nextItem first (lead first ++ (newline n ++ s)) = .ok (.inl s) := by
  obtain ⟨c, t, rfl, hspace, hbracket, -⟩ := h
  have hskip : skipSpace (newline n ++ c :: t) = c :: t := by
    rw [skipSpace_newline, skipSpace_cons hspace]
  cases first with
  | true =>
    rw [lead, List.nil_append, nextItem, hskip]
    exact if_neg hbracket
  | false =>
    show (afterComma ']' (newline n ++ c :: t)).map Sum.inl = _
    rw [afterComma, hskip]
    exact congrArg (Except.map Sum.inl) (if_neg hbracket)

theorem nextMember_child {s : Text} (h : BeginsChild s) (first : Bool) (n : Nat) :
    nextMember first (lead first ++ (newline n ++ s)) = .ok (.inl s) := by
  obtain ⟨c, t, rfl, hspace, -, hbrace⟩ := h
  have hskip : skipSpace (newline n ++ c :: t) = c :: t := by
    rw [skipSpace_newline, skipSpace_cons hspace]
  cases first with
  | true =>
    rw [lead, List.nil_append, nextMember, hskip]
    exact if_neg hbrace
  | false =>
    show (afterComma '\x7d' (newline n ++ c :: t)).map Sum.inl = _
    rw [afterComma, hskip]
    exact congrArg (Except.map Sum.inl) (if_neg hbrace)

theorem readName_quote (s r : Text) : readName (quote s ++ r) = .ok (s, r) := by
  rw [quote_append]
  exact readString_quoted s r

section

variable {α : Type} {b : Builder α} {fuel depth : Nat} {first : Bool} {s rest : Text}

theorem valueFrom_array {items : List α} (h : itemsFrom b fuel depth true s = .ok (items, rest)) :
    valueFrom b (fuel + 1) (depth + 1) ('[' :: s) = .ok (b.array items, rest) := by
  show (itemsFrom b fuel depth true s >>= fun p => .ok (b.array p.1, p.2)) = _
  rw [h]
  rfl

theorem valueFrom_object {members : List (Text × α)}
    (h : membersFrom b fuel depth true s = .ok (members, rest)) :
    valueFrom b (fuel + 1) (depth + 1) ('\x7b' :: s) = .ok (b.object members, rest) := by
  show (membersFrom b fuel depth true s >>= fun p => .ok (b.object p.1, p.2)) = _
  rw [h]
  rfl

theorem itemsFrom_close (h : nextItem first s = .ok (.inr rest)) :
    itemsFrom b (fuel + 1) depth first s = .ok ([], rest) := by
  rw [itemsFrom, h]
  rfl

theorem itemsFrom_cons {t u : Text} {a : α} {as : List α} (h : nextItem first s = .ok (.inl t))
    (ha : valueFrom b fuel depth t = .ok (a, u))
    (has : itemsFrom b fuel depth false u = .ok (as, rest)) :
    itemsFrom b (fuel + 1) depth first s = .ok (a :: as, rest) := by
  simp only [itemsFrom, h, ha, has, bind, Except.bind]

theorem membersFrom_close (h : nextMember first s = .ok (.inr rest)) :
    membersFrom b (fuel + 1) depth first s = .ok ([], rest) := by
  rw [membersFrom, h]
  rfl

/-- A member as it is written, with a blank between the colon and the value. -/
theorem membersFrom_cons {k t u : Text} {a : α} {ms : List (Text × α)}
    (h : nextMember first s = .ok (.inl (quote k ++ ':' :: ' ' :: t)))
    (ha : valueFrom b fuel depth (' ' :: t) = .ok (a, u))
    (hms : membersFrom b fuel depth false u = .ok (ms, rest)) :
    membersFrom b (fuel + 1) depth first s = .ok ((k, a) :: ms, rest) := by
  have hcolon : readColon (':' :: ' ' :: t) = .ok (' ' :: t) := rfl
  simp only [membersFrom, h, readName_quote, hcolon, ha, hms, bind, Except.bind]

end

end Json

end ConfigTemplate
