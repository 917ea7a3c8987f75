import AssetUnpack.Bytes

/-!
# CRC-32

The checksum of packages: the remainder of a polynomial division over bits, least significant bit
first. `Checksum.update` takes one byte into the running remainder, so the checksum of data that
arrives in pieces is that of the whole (`update_append`).
-/

namespace AssetUnpack.Checksum

/-- Divide once: the lowest bit decides whether the polynomial is taken off. -/
def shiftBit (crc : UInt32) : UInt32 :=
  if crc &&& 1 = 1 then (crc >>> 1) ^^^ 0xEDB88320 else crc >>> 1

/-- Take one byte into a running remainder. -/
def step (crc : UInt32) (b : UInt8) : UInt32 :=
  let c := crc ^^^ b.toUInt32
  shiftBit (shiftBit (shiftBit (shiftBit (shiftBit (shiftBit (shiftBit (shiftBit c)))))))

/-- The remainder before any byte. -/
def start : UInt32 := 0xFFFFFFFF

/-- Take bytes into a running remainder. -/
def update (crc : UInt32) (bs : Bytes) : UInt32 := bs.foldl step crc

/-- The checksum that a running remainder stands for. -/
def finish (crc : UInt32) : UInt32 := crc ^^^ 0xFFFFFFFF

/-- The checksum of a byte string. -/
def crc32 (bs : Bytes) : UInt32 := finish (update start bs)

/-- Pieces give the remainder of the whole. -/
theorem update_append (crc : UInt32) (xs ys : Bytes) :
    update crc (xs ++ ys) = update (update crc xs) ys :=
  List.foldl_append

end AssetUnpack.Checksum
