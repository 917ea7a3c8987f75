import AssetUnpack.Bytes

/-!
# Records of a zip directory

A directory has one record for every entry: its name, how its data is packed, what the data must
come to, and where the header in front of the data starts.
-/

namespace AssetUnpack.Zip

/-! ## Blocks and fields -/

/-- The number in a field: so many bytes from an offset. -/
def number (block : Bytes) (off len : Nat) : Nat :=
  Bytes.littleEndian ((block.drop off).take len)

/-- A block with its signature at an offset. -/
def blockAt? (bs : Bytes) (off len : Nat) (signature : Bytes) : Option Bytes :=
  match Bytes.slice? bs off len with
  | some block => if signature.isPrefixOf block then some block else none
  | none => none

/-! ## Records -/

/-- The ways to pack the data of an entry that can be unpacked here. -/
inductive Packing
  | stored | deflated
  deriving DecidableEq

/-- The packing with a number. -/
def Packing.ofCode? (code : Nat) : Option Packing :=
  if code = 0 then some .stored else if code = 8 then some .deflated else none

/-- The method that stands for encryption and names the true one in an extra field. -/
def encryptionCode : Nat := 99

/-- What the directory tells about an entry. -/
structure Record where
  name : String
  encrypted : Bool
  methodCode : Nat
  crc32 : Nat
  compressedSize : Nat
  size : Nat
  /-- Where the header in front of the data starts. -/
  header : Nat
  deriving DecidableEq

/-- The largest number of 32 bits stands for one that is told elsewhere. -/
def toldElsewhere : Nat := 0xFFFFFFFF

end AssetUnpack.Zip
