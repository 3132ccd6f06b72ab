/-
UTF-8.

Bytes are read in units: a unit is one character, or `none` for a longest run
of bytes that begins a character but cannot complete it.  Strict and lossy
decoding are two views of the same units:

* `decode?` wants every unit to be a character;
* `decodeLossy` puts U+FFFD for each unit that is not;
* `decodeLossy_eq_of_decode?`: where the first succeeds they agree.

Design notes: `shape` lists, for a first byte, the ranges that the bytes after
it must lie in.  A run stops at the first byte outside its range, which is the
longest ill-formed run that the standard asks for.  `units` counts the bytes it
still has to pass over, so it is plain recursion on the bytes.
-/
import ConfigTemplate.Text.Basic

namespace ConfigTemplate

/-- A byte sequence, such as the content of a file. -/
abbrev Bytes := List UInt8

namespace Utf8

/-- The payload of a first byte and the ranges of the bytes that must follow it,
or `none` when no character begins with the byte. -/
def shape (b : UInt8) : Option (Nat × List (UInt8 × UInt8)) :=
  if b ≤ 0x7F then some (b.toNat, [])
  else if b < 0xC2 then none
  else if b ≤ 0xDF then some (b.toNat - 0xC0, [(0x80, 0xBF)])
  else if b == 0xE0 then some (0, [(0xA0, 0xBF), (0x80, 0xBF)])
  else if b == 0xED then some (0xD, [(0x80, 0x9F), (0x80, 0xBF)])
  else if b ≤ 0xEF then some (b.toNat - 0xE0, [(0x80, 0xBF), (0x80, 0xBF)])
  else if b == 0xF0 then some (0, [(0x90, 0xBF), (0x80, 0xBF), (0x80, 0xBF)])
  else if b ≤ 0xF3 then some (b.toNat - 0xF0, [(0x80, 0xBF), (0x80, 0xBF), (0x80, 0xBF)])
  else if b == 0xF4 then some (4, [(0x80, 0x8F), (0x80, 0xBF), (0x80, 0xBF)])
  else none

/-- Read the bytes that follow a first byte: the code point, if all of them are
in range, and how many were. -/
def follow (code used : Nat) : List (UInt8 × UInt8) → Bytes → Option Nat × Nat
  | [], _ => (some code, used)
  | _ :: _, [] => (none, used)
  | (lo, hi) :: ranges, b :: bs =>
    if lo ≤ b && b ≤ hi then follow (code * 64 + (b.toNat - 0x80)) (used + 1) ranges bs
    else (none, used)

/-- The units of a byte sequence; the first `skip` bytes belong to a unit read
before. -/
def unitsFrom : (skip : Nat) → Bytes → List (Option Char)
  | _, [] => []
  | skip + 1, _ :: bs => unitsFrom skip bs
  | 0, b :: bs =>
    match shape b with
    | none => none :: unitsFrom 0 bs
    | some (code, ranges) =>
      let (point, used) := follow code 0 ranges bs
      point.map Char.ofNat :: unitsFrom used bs

/-- The units of a byte sequence, from its beginning. -/
def units (bs : Bytes) : List (Option Char) :=
  unitsFrom 0 bs

/-- The text that the bytes encode, if they are well formed. -/
def decode? (bs : Bytes) : Option Text :=
  (units bs).mapM id

/-- The text that the bytes encode, with U+FFFD for each ill-formed run. -/
def decodeLossy (bs : Bytes) : Text :=
  (units bs).map (·.getD '\uFFFD')

/-- The bytes of a text, which are always well formed. -/
def encode (s : Text) : Bytes :=
  s.flatMap String.utf8EncodeChar

@[simp] theorem encode_nil : encode [] = [] := rfl

@[simp] theorem encode_append (s t : Text) : encode (s ++ t) = encode s ++ encode t :=
  List.flatMap_append

@[simp] theorem length_encode (s : Text) : (encode s).length = s.byteLength := by
  induction s with
  | nil => rfl
  | cons c s ih =>
    rw [encode, List.flatMap_cons, List.length_append, String.length_utf8EncodeChar, ← encode, ih,
      Text.byteLength_cons]

/-- Texts with the same bytes are the same. -/
theorem encode_inj {s t : Text} : encode s = encode t ↔ s = t := by
  constructor
  · intro h
    have hbytes : List.utf8Encode s = List.utf8Encode t := congrArg List.toByteArray h
    have hdecode := congrArg ByteArray.utf8Decode? hbytes
    rw [List.utf8Decode?_utf8Encode, List.utf8Decode?_utf8Encode] at hdecode
    exact List.toArray_inj (Option.some.inj hdecode)
  · exact congrArg encode

private theorem map_getD_of_mapM_id {us : List (Option Char)} {s : Text}
    (h : us.mapM id = some s) : us.map (·.getD '\uFFFD') = s := by
  induction us generalizing s with
  | nil => simp_all
  | cons u us ih =>
    rw [List.mapM_cons] at h
    rcases u with _ | c
    · simp at h
    · rcases hs : us.mapM id with _ | t
      · simp [hs] at h
      · simp only [id_eq, hs, Option.pure_def, Option.bind_eq_bind, Option.bind_some,
          Option.some.injEq] at h
        rw [← h, List.map_cons, ih hs]
        rfl

/-- Well-formed bytes decode in the same way strictly and lossily. -/
theorem decodeLossy_eq_of_decode? {bs : Bytes} {s : Text} (h : decode? bs = some s) :
    decodeLossy bs = s :=
  map_getD_of_mapM_id h

end Utf8

end ConfigTemplate
