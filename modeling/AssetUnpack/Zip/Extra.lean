import AssetUnpack.Checksum
import AssetUnpack.Zip.Record

/-!
# Extra fields

Behind its name a directory record can carry extra fields, each a kind, a length and content. Some
tell what the record has no room for: large sizes, the true method of an encrypted entry, a name or
a comment in UTF-8. Times are checked and let go, every other kind is passed over.

The fields are read as one run of bytes, and a field with a fixed layout takes the bytes of that
layout whatever its length says. Where the bytes run out, reading ends and what was told up to there
holds. A field that contradicts itself or the record makes the record unreadable.
-/

namespace AssetUnpack.Zip

/-- What the extra fields of a record have told so far. -/
structure Extras where
  record : Record
  /-- The bytes of the name, as they stand in the directory. -/
  name : Bytes
  /-- The bytes of the comment's text. -/
  comment : Bytes
  /-- Whether the true method of an encrypted entry is known. -/
  methodTold : Bool := false
  /-- The bytes that have not been read. -/
  rest : Bytes

namespace Extras

/-- Why reading extra fields ends. -/
inductive Ending
  /-- There are not enough bytes left. -/
  | exhausted
  /-- What was read cannot be. -/
  | contradiction
  deriving DecidableEq

/-- A step of reading extra fields. What was told before the ending is kept. -/
abbrev Reading := EStateM Ending Extras

/-- Read so many bytes. -/
def bytes (count : Nat) : Reading Bytes := do
  let x ← get
  if x.rest.length < count then throw .exhausted
  set { x with rest := x.rest.drop count }
  return x.rest.take count

/-- Read a number of so many bytes. -/
def word (size : Nat) : Reading Nat := do
  return Bytes.littleEndian (← bytes size)

/-- Read on only where a condition holds. -/
def insist (condition : Bool) : Reading Unit :=
  if condition then pure () else throw .contradiction

/-- Read a large number where the record has no room for it, and say how many bytes that took. -/
def large (wanted : Bool) (keep : Record → Nat → Record) : Reading Nat :=
  if wanted then do
    let n ← word 8
    modify fun x => { x with record := keep x.record n }
    return 8
  else return 0

/-- Large sizes and offset. A field with room for all of them has all of them. -/
def largeNumbers (length : Nat) : Reading Unit := do
  let all := decide (24 ≤ length)
  let r := (← get).record
  let a ← large (all || r.size == toldElsewhere) fun r size => { r with size }
  let b ← large (all || r.compressedSize == toldElsewhere) fun r compressedSize =>
    { r with compressedSize }
  let c ← large (all || r.header == toldElsewhere) fun r header => { r with header }
  insist (a + b + c ≤ length)
  let _ ← bytes (length - (a + b + c))

/-- The vendor that may tell the method of an encrypted entry: `AE`. -/
def encryptionVendor : Nat := 0x4541

/-- The true method of an encrypted entry. -/
def encryptedMethod (length : Nat) : Reading Unit := do
  insist (length == 7)
  let version ← word 2
  let vendor ← word 2
  let strength ← word 1
  let methodCode ← word 2
  insist (vendor == encryptionVendor)
  insist (version == 1 || version == 2)
  insist (1 ≤ strength && strength ≤ 3)
  modify fun x => { x with record := { x.record with methodCode }, methodTold := true }

/-- A text in UTF-8 that stands in for a plain one. The checksum ties it to that one. -/
def unicode (plain : Bytes) (length : Nat) : Reading (Bytes × String) := do
  let _ ← word 1
  let checksum ← word 4
  insist (5 ≤ length)
  let content ← bytes (length - 5)
  insist (checksum == (Checksum.crc32 plain).toNat)
  match Bytes.text? content with
  | some text => return (content, text)
  | none => throw .contradiction

/-- The three times of a file as some file systems keep them. -/
def fileTimes (length : Nat) : Reading Unit := do
  insist (length == 32)
  let _ ← word 4
  insist ((← word 2) == 1)
  insist ((← word 2) == 24)
  let _ ← bytes 24

/-- The times of a file, of which a byte of flags tells how many there are. A length of five stands
for the first time alone, whatever the flags say; without a byte of flags no flag is set. -/
def flaggedTimes (length : Nat) : Reading Unit := do
  let flags ← if (← get).rest.isEmpty then pure 0 else word 1
  let set := ((List.range 8).filter flags.testBit).length
  insist (length == 5 || length == 1 + 4 * set)
  if flags.testBit 0 || length == 5 then
    let _ ← word 4
  if flags.testBit 1 && 5 < length then
    let _ ← word 4
  if flags.testBit 2 && 5 < length then
    let _ ← word 4

/-- Read one field. -/
def field : Reading Unit := do
  let kind ← word 2
  let length ← word 2
  if kind = 0x0001 then largeNumbers length
  else if kind = 0x9901 then encryptedMethod length
  else if kind = 0x000A then fileTimes length
  else if kind = 0x5455 then flaggedTimes length
  else if kind = 0x7075 then
    let (name, text) ← unicode (← get).name length
    modify fun x => { x with record := { x.record with name := text }, name }
  else if kind = 0x6375 then
    let (comment, _) ← unicode (← get).comment length
    modify fun x => { x with comment }
  else
    let _ ← bytes length

/-- Read at most so many fields. -/
def fields : Nat → Reading Unit
  | 0 => pure ()
  | n + 1 => do
    field
    fields n

/-- Read all fields; every field takes bytes, so there are no more fields than bytes. -/
def readAll (x : Extras) : Option Extras :=
  match fields x.rest.length x with
  | .ok _ x | .error .exhausted x => some x
  | .error .contradiction _ => none

end Extras

end AssetUnpack.Zip
