/-!
# Byte strings

Contents of files and packages are lists of bytes. This module reads little-endian numbers off
them and decodes UTF-8, once strictly and once with U+FFFD in place of every ill-formed part.
-/

namespace AssetUnpack

/-- A byte string. -/
abbrev Bytes := List UInt8

namespace Bytes

/-- The bytes of a text in UTF-8. -/
def ofString (s : String) : Bytes := s.toUTF8.data.toList

/-- Numbers of 32 bits are smaller. -/
def limit32 : Nat := 0x100000000

/-- Numbers of 64 bits are smaller. -/
def limit64 : Nat := 0x10000000000000000

/-- The number that a byte string writes, least significant byte first. -/
def littleEndian : Bytes → Nat
  | [] => 0
  | b :: rest => b.toNat + 256 * littleEndian rest

/-- The number that a byte string writes, most significant byte first. -/
def bigEndian (bs : Bytes) : Nat := bs.foldl (fun n b => n * 256 + b.toNat) 0

/-- So many bytes (`len`) from offset `off`, if the byte string reaches that far. -/
def slice? (bs : Bytes) (off len : Nat) : Option Bytes :=
  let part := (bs.drop off).take len
  if part.length = len then some part else none

/-- Whether there are so many bytes; none beyond them is looked at. -/
def atLeast (bs : Bytes) (n : Nat) : Bool := n == 0 || !(bs.drop (n - 1)).isEmpty

theorem atLeast_iff {bs : Bytes} {n : Nat} : bs.atLeast n ↔ n ≤ bs.length := by
  simp only [atLeast, Bool.or_eq_true, beq_iff_eq, Bool.not_eq_true', List.isEmpty_eq_false_iff,
    ne_eq, List.drop_eq_nil_iff]
  omega

/-- The part before the first zero byte. -/
def untilZero (bs : Bytes) : Bytes := bs.takeWhile (· != 0)

/-! ## UTF-8

A character is a lead byte and up to three continuation bytes. The lead byte fixes how many follow
and which range the first of them may take, so that overlong forms and surrogates are refused at
the second byte. -/

/-- What a lead byte announces: its own bits, the continuation bytes owed and the range of the
first of them. -/
structure Lead where
  bits : Nat
  owed : Nat
  low : Nat := 0x80
  high : Nat := 0xBF

/-- What byte `b` announces at the start of a character. -/
def lead? (b : Nat) : Option Lead :=
  if b < 0x80 then some { bits := b, owed := 0 }
  else if b < 0xC2 then none
  else if b < 0xE0 then some { bits := b - 0xC0, owed := 1 }
  else if b = 0xE0 then some { bits := 0, owed := 2, low := 0xA0 }
  else if b = 0xED then some { bits := 0xD, owed := 2, high := 0x9F }
  else if b < 0xF0 then some { bits := b - 0xE0, owed := 2 }
  else if b = 0xF0 then some { bits := 0, owed := 3, low := 0x90 }
  else if b < 0xF4 then some { bits := b - 0xF0, owed := 3 }
  else if b = 0xF4 then some { bits := 4, owed := 3, high := 0x8F }
  else none

/-- Take the continuation bytes that are owed. The result is the character's number when all are
there, and the bytes after the last one that fitted. -/
def continuation : Nat → Nat → Nat → Nat → Bytes → Option Nat × Bytes
  | bits, 0, _, _, rest => (some bits, rest)
  | _, _ + 1, _, _, [] => (none, [])
  | bits, owed + 1, low, high, b :: rest =>
    if low ≤ b.toNat ∧ b.toNat ≤ high then
      continuation (bits * 64 + (b.toNat - 0x80)) owed 0x80 0xBF rest
    else (none, b :: rest)

/-- The first character, or nothing where the bytes start ill-formed, and the bytes after it. An
ill-formed start is the longest part that some character begins with, and at least one byte. -/
def nextChar (b : UInt8) (rest : Bytes) : Option Char × Bytes :=
  match lead? b.toNat with
  | none => (none, rest)
  | some l =>
    let (n, rest) := continuation l.bits l.owed l.low l.high rest
    (n.map Char.ofNat, rest)

theorem continuation_length (bits owed low high : Nat) (bs : Bytes) :
    (continuation bits owed low high bs).2.length ≤ bs.length := by
  induction owed generalizing bits low high bs with
  | zero => simp [continuation]
  | succ owed ih =>
    cases bs with
    | nil => simp [continuation]
    | cons b rest =>
      simp only [continuation]
      split
      · exact Nat.le_succ_of_le (ih _ _ _ _)
      · exact Nat.le_refl _

theorem nextChar_length (b : UInt8) (rest : Bytes) :
    (nextChar b rest).2.length ≤ rest.length := by
  unfold nextChar
  split
  · exact Nat.le_refl _
  · exact continuation_length _ _ _ _ _

/-- Decode UTF-8: one element per character, nothing for an ill-formed part. -/
def decode : Bytes → List (Option Char)
  | [] => []
  | b :: rest =>
    have := Nat.lt_succ_of_le (nextChar_length b rest)
    (nextChar b rest).1 :: decode (nextChar b rest).2
termination_by bs => bs.length

/-- The text that a byte string spells in UTF-8, if it does. -/
def text? (bs : Bytes) : Option String :=
  ((decode bs).mapM id).map String.ofList

/-- The text that a byte string spells in UTF-8, with U+FFFD for every ill-formed part. -/
def textReplacing (bs : Bytes) : String :=
  String.ofList ((decode bs).map (·.getD '\uFFFD'))

end Bytes

end AssetUnpack
