import AssetUnpack.Table
import AssetUnpack.Text.CodePage437
import AssetUnpack.Zip.Extra

/-!
# The directory of a zip archive

A zip archive ends in a directory: one record for every entry, then an end record that tells where
the directory starts and how many records it has. Archives with many entries have a second, larger
end record and a locator that points to it.

Reading starts from the back: the last end record that leads to a readable directory counts.
Whatever stands in front of the archive shifts all its offsets; how far shows where the first
directory record is really found.
-/

namespace AssetUnpack.Zip

/-! ## Signatures -/

/-- How a directory record starts: `PK`, 1, 2. -/
def recordSignature : Bytes := [0x50, 0x4B, 1, 2]

/-- How the header in front of an entry's data starts: `PK`, 3, 4. -/
def headerSignature : Bytes := [0x50, 0x4B, 3, 4]

/-- How the end record starts: `PK`, 5, 6. -/
def endSignature : Bytes := [0x50, 0x4B, 5, 6]

/-- How the large end record starts: `PK`, 6, 6. -/
def largeEndSignature : Bytes := [0x50, 0x4B, 6, 6]

/-- How the locator of the large end record starts: `PK`, 6, 7. -/
def locatorSignature : Bytes := [0x50, 0x4B, 6, 7]

/-- Where a signature stands in a byte string, last place first. -/
def placesFrom (signature : Bytes) : Nat → Bytes → List Nat → List Nat
  | _, [], acc => acc
  | at_, b :: bs, acc =>
    placesFrom signature (at_ + 1) bs
      (if signature.isPrefixOf (b :: bs) then at_ :: acc else acc)

/-- Where a signature stands in a byte string, last place first. -/
def places (signature bs : Bytes) : List Nat := placesFrom signature 0 bs []

/-- Where a signature stands between two offsets, first place first. -/
def placesBetween (signature bs : Bytes) (low high : Nat) : List Nat :=
  ((places signature bs).filter fun p => low ≤ p ∧ p + signature.length ≤ high).reverse

/-! ## Where the directory is -/

/-- Where the records of a directory start, how many there are, and how far offsets are shifted. -/
structure Location where
  start : Nat
  count : Nat
  shift : Nat
  deriving DecidableEq

/-- The location that a large end record gives, if it fits its locator. -/
def largeLocation? (bs : Bytes) (pointer locatorDisk locatorPlace place : Nat) :
    Option (Option Location) :=
  match blockAt? bs place 56 largeEndSignature with
  | none => none
  | some block =>
    let recordSize := number block 4 8
    let disk := number block 16 4
    let directoryDisk := number block 20 4
    let countHere := number block 24 8
    let count := number block 32 8
    let offset := number block 48 8
    if recordSize < 44 ∨ recordSize + 12 ≠ locatorPlace - place then none
    else if directoryDisk ≠ locatorDisk then none
    else if place < count * 46 + offset then none
    else if count < countHere ∨ disk ≠ directoryDisk then some none
    else some (some ⟨offset + (place - pointer), count, place - pointer⟩)

/-- The locator in front of an end record: the disk and the offset of the large end record, and the
number of disks. -/
def locator? (bs : Bytes) (endPlace : Nat) : Option (Nat × Nat × Nat) :=
  if endPlace < 20 then none
  else
    (blockAt? bs (endPlace - 20) 20 locatorSignature).map fun block =>
      (number block 4 4, number block 8 8, number block 16 4)

/-- The location that the end record at an offset gives. -/
def location? (bs : Bytes) (place : Nat) : Option Location :=
  match blockAt? bs place 22 endSignature with
  | none => none
  | some block =>
    let disk := number block 4 2
    let directoryDisk := number block 6 2
    let countHere := number block 8 2
    let count := number block 10 2
    let offset := number block 16 4
    let comment := number block 20 2
    if bs.length < place + 22 + comment then none
    else
      let mayBeLarge := count = 0xFFFF ∨ offset = 0xFFFFFFFF
      match if mayBeLarge then locator? bs place else none with
      | some (locatorDisk, pointer, disks) =>
        let locatorPlace := place - 20
        if locatorPlace ≤ pointer ∨ 1 < disks then none
        else
          ((placesBetween largeEndSignature bs pointer locatorPlace).findSome?
            (largeLocation? bs pointer locatorDisk locatorPlace)).join
      | none =>
        if disk ≠ directoryDisk then none
        else if count = 0 then some ⟨offset + (place - offset), countHere, place - offset⟩
        else if place ≤ offset then none
        else
          match placesBetween recordSignature bs offset place with
          | [] => none
          | first :: _ => some ⟨first, countHere, first - offset⟩

/-! ## Records -/

/-- The text of a name. -/
def nameText (utf8 : Bool) (name : Bytes) : String :=
  if utf8 then Bytes.textReplacing name else String.ofList (name.map Text.codePage437)

/-- The record at the front of a byte string, and the bytes behind it. -/
def takeRecord (shift : Nat) (bs : Bytes) : Option (Record × Bytes) := do
  let block ← blockAt? bs 0 46 recordSignature
  let flags := number block 8 2
  let nameLength := number block 28 2
  let extraLength := number block 30 2
  let commentLength := number block 32 2
  let name ← Bytes.slice? bs 46 nameLength
  let extra ← Bytes.slice? bs (46 + nameLength) extraLength
  let comment ← Bytes.slice? bs (46 + nameLength + extraLength) commentLength
  let utf8 := flags.testBit 11
  let plain : Record :=
    { name := nameText utf8 name
      encrypted := flags.testBit 0
      methodCode := number block 10 2
      crc32 := number block 16 4
      compressedSize := number block 20 4
      size := number block 24 4
      header := number block 42 4 }
  let comment := Bytes.ofString (nameText utf8 comment)
  let x ← Extras.readAll { record := plain, name, comment, rest := extra }
  let r := x.record
  if plain.methodCode == encryptionCode && !x.methodTold then none
  if Bytes.limit64 ≤ r.header + shift then none
  return ({ r with header := r.header + shift },
    bs.drop (46 + nameLength + extraLength + commentLength))

/-- So many records from the front of a byte string. -/
def takeRecords (shift : Nat) : Nat → Bytes → Option (List Record)
  | 0, _ => some []
  | n + 1, bs =>
    match takeRecord shift bs with
    | none => none
    | some (r, rest) => (takeRecords shift n rest).map (r :: ·)

/-- Records with one name are one entry: it stands where the first of them does and is what the last
of them tells. -/
def mergeNames (records : List Record) : List Record :=
  (records.foldl (fun (t : Table String Record) r => t.put r.name r) .empty).entries.map (·.2)

/-- The entries of an archive in the order of its directory, if it has one that can be read. -/
def directory? (bs : Bytes) : Option (List Record) :=
  (places endSignature bs).findSome? fun place =>
    (location? bs place).bind fun l =>
      (takeRecords l.shift l.count (bs.drop l.start)).map mergeNames

/-- Where the data of an entry starts: behind the header in front of it. -/
def dataStart? (bs : Bytes) (r : Record) : Option Nat :=
  (blockAt? bs r.header 30 headerSignature).map fun block =>
    r.header + 30 + number block 26 2 + number block 28 2

/-- Whether a name is that of a directory. -/
def isDirectoryName (name : String) : Bool :=
  match name.toList.getLast? with
  | some '/' | some '\\' => true
  | _ => false

end AssetUnpack.Zip
