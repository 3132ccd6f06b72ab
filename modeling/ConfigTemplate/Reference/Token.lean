/-
Tokens and where they stand.

`scan` looks for the references of a text from left to right.  At each place it
asks a recogniser for a reference that begins there; it goes on after the
reference, or one character further if there is none.  The result keeps the text
between the references: `source_scan` says that nothing is lost.

Design notes: `scanFrom` counts the characters of the reference just found that
it still has to pass over, so it is plain recursion on the text and its mark
moves one character at a time.
-/
import ConfigTemplate.Reference.Path

namespace ConfigTemplate

/-- What a reference does. -/
inductive Kind where
  /-- A placeholder with a plain path. -/
  | name
  /-- A placeholder with references in its path. -/
  | composed
  /-- A placeholder with an ampersand. -/
  | ampersand
  | opening
  | inverted
  | closing
  | envVar
  deriving DecidableEq, Repr

/-- A reference as a recogniser finds it. -/
structure Lexeme where
  kind : Kind
  path : Path
  text : Text

/-- A reference and the place where it begins. -/
structure Token where
  kind : Kind
  path : Path
  text : Text
  place : Mark
  deriving DecidableEq

namespace Token

/-- The line on which a token begins, counted from 1. -/
def line (t : Token) : Nat :=
  t.place.line

/-- The number of bytes before a token. -/
def start (t : Token) : Nat :=
  t.place.offset

/-- The number of bytes up to the end of a token. -/
def stop (t : Token) : Nat :=
  t.place.offset + t.text.byteLength

/-- The token as one on line `n`. -/
def onLine (t : Token) (n : Nat) : Token :=
  { t with place := ⟨n, t.place.offset⟩ }

end Token

/-- The token that a lexeme is at a place. -/
def Lexeme.token (l : Lexeme) (m : Mark) : Token :=
  ⟨l.kind, l.path, l.text, m⟩

/-- A text cut into its references and the text between them. -/
inductive Segments where
  | last (text : Text)
  | before (gap : Text) (token : Token) (rest : Segments)

namespace Segments

/-- Segments with one more character in front. -/
def cons (c : Char) : Segments → Segments
  | last s => last (c :: s)
  | before gap t rest => before (c :: gap) t rest

/-- The references of a text, in order. -/
def tokens : Segments → List Token
  | last _ => []
  | before _ t rest => t :: rest.tokens

/-- The text that was cut. -/
def source : Segments → Text
  | last s => s
  | before gap t rest => gap ++ t.text ++ rest.source

@[simp] theorem tokens_cons (c : Char) (s : Segments) : (s.cons c).tokens = s.tokens := by
  cases s <;> rfl

@[simp] theorem source_cons (c : Char) (s : Segments) : (s.cons c).source = c :: s.source := by
  cases s <;> rfl

end Segments

/-- A recogniser of the references that begin a text. -/
abbrev Recogniser := Text → Option Lexeme

/-- Cut the text at `m`, of which the first `skip` characters belong to a reference
found before. -/
def scanFrom (recognise : Recogniser) : (m : Mark) → (skip : Nat) → Text → Segments
  | _, _, [] => .last []
  | m, skip + 1, c :: s => scanFrom recognise (m.next c) skip s
  | m, 0, c :: s =>
    match recognise (c :: s) with
    | some l => .before [] (l.token m) (scanFrom recognise (m.next c) (l.text.length - 1) s)
    | none => (scanFrom recognise (m.next c) 0 s).cons c

/-- Cut a text into the references that a recogniser finds and the text between
them. -/
def scan (recognise : Recogniser) (s : Text) : Segments :=
  scanFrom recognise .start 0 s

/-- A recogniser finds what the text begins with, and finds nothing of no length. -/
def Recogniser.Sound (recognise : Recogniser) : Prop :=
  ∀ s l, recognise s = some l → l.text ≠ [] ∧ l.text <+: s

/-- After a reference, scanning goes on with the text and the mark behind it. -/
theorem scanFrom_skip (recognise : Recogniser) (m : Mark) (t s : Text) :
    scanFrom recognise m t.length (t ++ s) = scanFrom recognise (m.past t) 0 s := by
  induction t generalizing m with
  | nil => rfl
  | cons c t ih => exact ih (m.next c)

theorem source_scanFrom {recognise : Recogniser} (h : recognise.Sound) (m : Mark) (s : Text) :
    (scanFrom recognise m 0 s).source = s := by
  generalize hn : s.length = n
  induction n using Nat.strongRecOn generalizing s m with
  | ind n ih =>
    rcases s with _ | ⟨c, s⟩
    · rfl
    rw [scanFrom]
    rcases hl : recognise (c :: s) with _ | l
    · rw [Segments.source_cons, ih s.length (by simp [← hn]) _ _ rfl]
    · obtain ⟨hne, r, hr⟩ := h _ _ hl
      obtain ⟨d, t, ht⟩ := List.exists_cons_of_ne_nil hne
      rw [ht, List.cons_append, List.cons.injEq] at hr
      obtain ⟨rfl, rfl⟩ := hr
      have hskip := scanFrom_skip recognise (m.next d) t r
      simp only [ht, List.length_cons, Nat.add_sub_cancel, Segments.source, Lexeme.token, hskip]
      rw [ih r.length (by simp only [← hn, List.length_cons, List.length_append]; omega) _ _ rfl]
      rfl

/-- The references and the text between them are the whole text. -/
theorem source_scan {recognise : Recogniser} (h : recognise.Sound) (s : Text) :
    (scan recognise s).source = s :=
  source_scanFrom h .start s

end ConfigTemplate
