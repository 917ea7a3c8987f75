import AssetUnpack.Checksum
import AssetUnpack.Deflate

/-!
# Gzip

A gzip member is a header, a deflated stream and a trailer with the checksum and the length of the
content. A reader of a member hands out its content up to the first thing that is wrong with it: a
bad header shows before the first byte, a bad trailer only behind the last one.
-/

namespace AssetUnpack.Gzip

/-- The header is none. -/
def badHeader : IoError := .said .invalidInput "invalid gzip header"

/-- The member ends too early. -/
def tooShort : IoError := .said .unexpectedEof "unexpected end of file"

/-- The trailer does not fit the content. -/
def badTrailer : IoError :=
  .said .invalidInput "corrupt gzip stream does not have a matching checksum"

/-- The longest text in a header. -/
def textLimit : Nat := 65535

/-- The bytes behind a text that a zero ends. -/
def skipText (bs : Bytes) : Except IoError Bytes :=
  let text := bs.takeWhile (· ≠ 0)
  if textLimit < text.length then .error badHeader
  else
    match bs.drop text.length with
    | [] => .error tooShort
    | _ :: rest => .ok rest

/-- The bytes behind a counted field. -/
def skipCounted (bs : Bytes) : Except IoError Bytes :=
  match bs with
  | a :: b :: rest =>
    let n := a.toNat + 256 * b.toNat
    if rest.length < n then .error tooShort else .ok (rest.drop n)
  | _ => .error tooShort

/-- The bytes behind the checksum of a header, which must fit it. -/
def skipHeaderChecksum (header bs : Bytes) : Except IoError Bytes :=
  match bs with
  | a :: b :: rest =>
    if (Checksum.crc32 header).toNat % 65536 = a.toNat + 256 * b.toNat then .ok rest
    else .error badTrailer
  | _ => .error tooShort

/-- The bytes behind the header. -/
def skipHeader (bs : Bytes) : Except IoError Bytes := do
  let some header := Bytes.slice? bs 0 10 | throw tooShort
  match header with
  | a :: b :: method :: flags :: _ =>
    if a ≠ 0x1F ∨ b ≠ 0x8B ∨ method ≠ 8 then throw badHeader
    if flags &&& 0xE0 ≠ 0 then throw badHeader
    let rest := bs.drop 10
    let rest ← if flags &&& 4 ≠ 0 then skipCounted rest else pure rest
    let rest ← if flags &&& 8 ≠ 0 then skipText rest else pure rest
    let rest ← if flags &&& 16 ≠ 0 then skipText rest else pure rest
    if flags &&& 2 ≠ 0 then skipHeaderChecksum (bs.take (bs.length - rest.length)) rest
    else pure rest
  | _ => throw tooShort

/-- What is wrong with a trailer. -/
def trailerFault? (content trailer : Bytes) : Option IoError :=
  match Bytes.slice? trailer 0 8 with
  | none => some tooShort
  | some bs =>
    let sum := Bytes.littleEndian (bs.take 4)
    let length := Bytes.littleEndian (bs.drop 4)
    if sum = (Checksum.crc32 content).toNat ∧ length = content.length % Bytes.limit32 then none
    else some badTrailer

/-- What a reader of the first member of a byte string hands out. -/
def reader (bs : Bytes) : Reader :=
  match skipHeader bs with
  | .error e => [.fault e]
  | .ok body =>
    let decoded := Deflate.decode body
    let content := decoded.reader (bs.length - body.length)
    match decoded.fault? with
    | some _ => content
    | none => content ++ (trailerFault? decoded.content decoded.rest).toList.map .fault

end AssetUnpack.Gzip
