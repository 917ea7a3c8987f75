import AssetUnpack.Stream.Reader
import AssetUnpack.Text.Blank

/-!
# Members of a tar bundle

A bundle is a row of members, each a header block of 512 bytes and its content padded to whole
blocks. A block of zeros, or the end of the input where a header would start, ends the bundle.
Some members describe the member behind them: a long name, or a record of attributes. A sparse
member lists the chunks that its content is made of, which must add up.

`members` reads a whole bundle into a list; the last element tells what broke, if something did.
It ends because every member takes at least its header from the input.
-/

namespace AssetUnpack.Tar

/-- The size of a block. -/
def blockSize : Nat := 512

/-- A member of a bundle. -/
structure Member where
  name : Bytes
  /-- The type flag of the header. -/
  flag : UInt8
  /-- The content, as far as the input reaches. -/
  content : Bytes
  /-- The reader's failure, if the content runs into it. -/
  failure? : Option IoError
  deriving DecidableEq

/-- What comes next in a bundle. -/
inductive Item
  | member (m : Member)
  /-- The bundle cannot be read any further. -/
  | broken (detail : String)
  deriving DecidableEq

/-! ## Headers -/

/-- A field of a header: so many bytes from an offset. -/
def headerField (header : Bytes) (off len : Nat) : Bytes := (header.drop off).take len

/-- The number that digits of a base up to ten write; there must be one, and the number must fit in
64 bits. A plus may stand in front. -/
def digits? (base : Nat) (cs : List Char) : Option Nat :=
  let cs := match cs with
    | '+' :: rest => rest
    | _ => cs
  if cs.isEmpty then none
  else
    let n? := cs.foldl (fun n? c => n?.bind fun n =>
      if '0' ≤ c ∧ c.toNat < '0'.toNat + base then some (n * base + (c.toNat - '0'.toNat))
      else none) (some 0)
    n?.bind fun n => if n < Bytes.limit64 then some n else none

/-- An octal number with blanks around it, up to the first zero byte. -/
def octal? (field : Bytes) : Option Nat :=
  (Bytes.text? field.untilZero).bind fun s => digits? 8 (Text.trim s.toList)

/-- A size: octal, or, where the highest bit of the first byte is set, the number that the last
eight bytes write. -/
def size? (field : Bytes) : Option Nat :=
  match field with
  | first :: _ =>
    if first &&& 0x80 = 0 then octal? field
    else some (Bytes.bigEndian (field.drop (field.length - 8)))
  | [] => none

/-- The sum of the bytes of a header, those of the checksum field counted as blanks. -/
def headerSum (header : Bytes) : Nat :=
  (header.take 148).foldl (fun n b => n + b.toNat) 0
    + (header.drop 156).foldl (fun n b => n + b.toNat) 0 + 8 * 32

/-- Whether a header follows the POSIX layout, which splits long names. -/
def isPosix (header : Bytes) : Bool :=
  headerField header 257 8 == Bytes.ofString "ustar\x0000"

/-- Whether a header follows the GNU layout. -/
def isGnu (header : Bytes) : Bool :=
  headerField header 257 8 == Bytes.ofString "ustar  \x00"

/-- The name in a header; in the POSIX layout with the part that was split off in front. -/
def headerName (header : Bytes) : Bytes :=
  let name := (headerField header 0 100).untilZero
  let front := (headerField header 345 155).untilZero
  if isPosix header && !front.isEmpty then front ++ [0x2F] ++ name else name

/-! ## Attribute records -/

/-- One line of attributes: its length in decimal, a blank, the key, `=`, the value. -/
def attribute? (line : Bytes) : Option (Bytes × Bytes) :=
  let count := line.takeWhile (· ≠ 0x20)
  let rest := line.drop count.length
  match rest with
  | [] => none
  | _ :: body =>
    match (Bytes.text? count).bind fun s => digits? 10 s.toList with
    | none => none
    | some n =>
      let key := body.takeWhile (· ≠ 0x3D)
      if n = line.length + 1 ∧ key.length < body.length then
        some (key, body.drop (key.length + 1))
      else none

/-- Cut a byte string into lines. -/
def lines (bs : Bytes) (line : Bytes) : List Bytes :=
  match bs with
  | [] => [line.reverse]
  | b :: bs => if b = 0x0A then line.reverse :: lines bs [] else lines bs (b :: line)

/-- The attributes of a record up to the first empty line; a line that is none gives nothing. -/
def attributes (record : Bytes) : List (Option (Bytes × Bytes)) :=
  ((lines record []).takeWhile (· ≠ [])).map attribute?

/-- The path that a record gives. -/
def recordedPath? (record : Bytes) : Option Bytes :=
  (attributes record).findSome? fun
    | some (key, value) => if key = Bytes.ofString "path" then some value else none
    | none => none

/-- The size that a record gives; a line that is none, or a size that is none, ends the search. -/
def recordedSize? : List (Option (Bytes × Bytes)) → Option Nat
  | [] => none
  | none :: _ => none
  | some (key, value) :: rest =>
    if key = Bytes.ofString "size" then
      (Bytes.text? value).bind fun s => digits? 10 s.toList
    else recordedSize? rest

/-! ## What describes the next member -/

/-- What a member does to the members behind it, if it describes them. -/
inductive Role
  | longName | longLink | record | content
  deriving DecidableEq

/-- The type flag of a header. -/
def flagOf (header : Bytes) : UInt8 := (headerField header 156 1).headD 0

/-- The role of a header. Only the POSIX and the GNU layout have describing members. -/
def role (header : Bytes) : Role :=
  if !(isPosix header || isGnu header) then .content
  else if flagOf header = 0x4C then .longName
  else if flagOf header = 0x4B then .longLink
  else if flagOf header = 0x78 then .record
  else .content

/-- What is known about the next member. -/
structure Pending where
  longName? : Option Bytes := none
  longLink : Bool := false
  record? : Option Bytes := none

/-- Whether anything is known about the next member. -/
def Pending.any (p : Pending) : Bool := p.longName?.isSome || p.longLink || p.record?.isSome

/-- A long name without the zero byte at its end. -/
def withoutFinalZero (name : Bytes) : Bytes :=
  if name.getLast? = some 0 then name.dropLast else name

/-- The name of a member: the long one, the recorded one, or that of its header. -/
def memberName (header : Bytes) (p : Pending) : Bytes :=
  match p.longName?, p.record?.bind recordedPath? with
  | some name, _ => withoutFinalZero name
  | none, some name => name
  | none, none => headerName header

/-- Whether a type flag is one of those that describe other members, in any layout. Their size is
never a recorded one. -/
def describes (flag : UInt8) : Bool := flag = 0x4C ∨ flag = 0x4B ∨ flag = 0x78 ∨ flag = 0x67

/-! ## Sparse members -/

/-- The type flag of a sparse member. -/
def sparseFlag : UInt8 := 0x53

/-- A chunk of a sparse member: the fields of its offset and its length. -/
structure Chunk where
  offset : Bytes
  length : Bytes

/-- So many chunks from an offset of a block. -/
def chunksAt (block : Bytes) (off count : Nat) : List Chunk :=
  (List.range count).map fun i =>
    ⟨headerField block (off + 24 * i) 12, headerField block (off + 24 * i + 12) 12⟩

/-- How far the chunks of a sparse member reach: where the last one ends, and how many bytes of the
member are left for others. -/
structure Reach where
  reached : Nat
  left : Nat

/-- Add a chunk to the content of a member of `size` bytes. A field that starts with a zero byte
makes no chunk; the others must be in order, and all but the last fill whole blocks. -/
def addChunk (size : Nat) (r : Reach) (c : Chunk) : Except String Reach :=
  if c.offset.head? = some 0 ∨ c.length.head? = some 0 then .ok r
  else
    match octal? c.offset, octal? c.length with
    | some offset, some length =>
      if length ≠ 0 ∧ (size - r.left) % blockSize ≠ 0 then .error "chunk not aligned to blocks"
      else if offset < r.reached then .error "chunks out of order"
      else if Bytes.limit64 ≤ offset + length then .error "chunks reach too far"
      else if r.left < length then .error "chunks hold more than the member"
      else .ok ⟨offset + length, r.left - length⟩
    | _, _ => .error "chunk is not made of numbers"

/-- The blocks with further chunks at the front of an input; each tells whether another follows. -/
def furtherBlocks (r : Reader) : Except String (List Bytes) :=
  match h : r.collect blockSize with
  | (block, e?, rest) =>
    match e? with
    | some e => .error e.message
    | none =>
      if hb : block.length < blockSize then .error "failed to read extension"
      else if headerField block 504 1 = [1] then
        have : Reader.weight rest < Reader.weight r := by
          have := Reader.weight_collect_le blockSize r
          rw [h] at this
          simp only [blockSize] at hb
          simp only at this
          omega
        (furtherBlocks rest).map (block :: ·)
      else .ok [block]
termination_by Reader.weight r

/-- Check the chunks of a sparse member of `size` bytes, given the input behind its header; gives
the number of blocks with further chunks. -/
def checkSparse (header : Bytes) (size : Nat) (r : Reader) : Except String Nat := do
  if !isGnu header then throw "sparse member without the GNU layout"
  let further ← if headerField header 482 1 = [1] then furtherBlocks r else pure []
  let chunks := chunksAt header 386 4 ++ further.flatMap fun block => chunksAt block 0 21
  let reach ← chunks.foldlM (addChunk size) ⟨0, size⟩
  match octal? (headerField header 483 12) with
  | none => throw "full size is not a number"
  | some full =>
    if full ≠ reach.reached then throw "chunks do not come to the full size"
    if reach.left ≠ 0 then throw "chunks do not come to the size of the member"
    return further.length

/-! ## Reading a bundle -/

/-- A size rounded up to whole blocks. -/
def paddedSize (size : Nat) : Nat := (size + (blockSize - 1)) / blockSize * blockSize

/-- The size of the content behind a header that starts at `place`. -/
def readHeader (header : Bytes) (p : Pending) (place : Nat) : Except String Nat :=
  match octal? (headerField header 148 8) with
  | none => .error "checksum is not a number"
  | some sum =>
    if sum ≠ headerSum header then .error "archive header checksum mismatch"
    else
      match size? (headerField header 124 12) with
      | none => .error "size is not a number"
      | some size =>
        let recorded := p.record?.bind fun r => recordedSize? (attributes r)
        let size := if describes (flagOf header) then size else recorded.getD size
        if Bytes.limit64 ≤ place + blockSize + paddedSize size then .error "size overflow"
        else .ok size

/-- Where the reading of a bundle stands. -/
structure Position where
  /-- What is left of the input. -/
  rest : Reader
  /-- How many bytes lie between that and the next header. -/
  gap : Nat
  /-- Where the next header starts. -/
  place : Nat

/-- Where a bundle starts. -/
def Position.start (input : Reader) : Position := ⟨input, 0, 0⟩

/-- The members of a bundle from a position on. -/
def members (p : Pending) (at_ : Position) : List Item :=
  match h₁ : at_.rest.collect at_.gap with
  | (_, some e, _) => [.broken e.message]
  | (passed, none, input) =>
    if passed.length < at_.gap then [.broken "unexpected EOF during skip"]
    else
      match h₂ : input.collect blockSize with
      | (_, some e, _) => [.broken e.message]
      | (header, none, body) =>
        if hb : header.length < blockSize then
          if !header.isEmpty then [.broken "failed to read entire block"]
          else if p.any then [.broken "description of a member that is not there"]
          else []
        else if header.all (· == 0) then
          if p.any then [.broken "description of a member that is not there"] else []
        else
          match readHeader header p at_.place with
          | .error e => [.broken e]
          | .ok size =>
            let (content, failure?, _) := body.collect size
            let next (further : Nat) : Position :=
              { rest := (body.collect (further * blockSize)).2.2
                gap := paddedSize size
                place := at_.place + blockSize + further * blockSize + paddedSize size }
            have shorter (further : Nat) :
                Reader.weight (next further).rest < Reader.weight at_.rest := by
              have h₁' := Reader.weight_collect_le at_.gap at_.rest
              have h₂' := Reader.weight_collect_le blockSize input
              have h₃ := Reader.weight_collect_le (further * blockSize) body
              rw [h₁] at h₁'
              rw [h₂] at h₂'
              simp only [blockSize] at hb
              simp only [next] at h₁' h₂' h₃ ⊢
              omega
            have := shorter 0
            match role header with
            | .longName =>
              if p.longName?.isSome then [.broken "two long names for one member"]
              else
                match failure? with
                | some e => [.broken e.message]
                | none => members { p with longName? := some content } (next 0)
            | .longLink =>
              if p.longLink then [.broken "two long links for one member"]
              else
                match failure? with
                | some e => [.broken e.message]
                | none => members { p with longLink := true } (next 0)
            | .record =>
              if p.record?.isSome then [.broken "two records for one member"]
              else
                match failure? with
                | some e => [.broken e.message]
                | none => members { p with record? := some content } (next 0)
            | .content =>
              let checked :=
                if flagOf header = sparseFlag then checkSparse header size body else .ok 0
              match checked with
              | .error e => [.broken e]
              | .ok further =>
                have := shorter further
                .member
                  { name := memberName header p
                    flag := flagOf header
                    content
                    failure? } :: members {} (next further)
termination_by Reader.weight at_.rest

end AssetUnpack.Tar
