import AssetUnpack.Stream.Decoder

/-!
# Deflate

A deflated stream is a sequence of bits, the least significant bit of every byte first. It is a
list of blocks; a block holds bytes as they are, or symbols of two Huffman codes that stand for
bytes and for copies of what was written before.

Every loop consumes bits, so the number of bits that are left bounds it; that number is handed to
`symbols` and `blocks` as the count they recurse on, and is never reached.

A decoder fetches its input in portions and works ahead: it fills the room it is given and goes on
to where the next byte is wanted. A fault that it meets on the way costs the bytes that it had
filled. A `Fault` therefore tells the bits behind it, which say in which portion it shows, and
`Decoded.reader` dooms the bytes that are decoded from that portion.
-/

namespace AssetUnpack.Deflate

/-- Why a stream cannot be decoded. -/
inductive Fault
  /-- The bits up to those that are left mean nothing. -/
  | corrupt (left : List Bool)
  /-- A copy starts before the content. This shows only when the first byte of the copy is
  wanted. -/
  | copyTooFar (left : List Bool)
  /-- The stream ends where bits are needed. -/
  | truncated
  deriving DecidableEq

/-- The eight bits of a byte, least significant first. -/
def bitsOfByte (b : UInt8) : List Bool :=
  (List.range 8).map fun i => b.toNat.testBit i

/-- The bits of a byte string. -/
def bitsOf (bs : Bytes) : List Bool := bs.flatMap bitsOfByte

/-- A number of so many bits, least significant first. -/
def takeNumber : Nat → List Bool → Except Fault (Nat × List Bool)
  | 0, bits => .ok (0, bits)
  | _ + 1, [] => .error .truncated
  | n + 1, b :: bits =>
    match takeNumber n bits with
    | .error e => .error e
    | .ok (v, bits) => .ok (b.toNat + 2 * v, bits)

/-! ## Huffman codes -/

/-- A prefix code: a path of bits leads to every symbol. -/
inductive Code
  | none
  | symbol (s : Nat)
  | branch (zero one : Code)

namespace Code

/-- Add a symbol at the end of a path. -/
def insert (s : Nat) : List Bool → Code → Code
  | [], _ => .symbol s
  | b :: path, .branch zero one =>
    if b then .branch zero (insert s path one) else .branch (insert s path zero) one
  | b :: path, c =>
    if b then .branch c (insert s path .none) else .branch (insert s path .none) c

/-- Follow bits to a symbol. -/
def decode : Code → List Bool → Except Fault (Nat × List Bool)
  | .none, bits => .error (.corrupt bits)
  | .symbol s, bits => .ok (s, bits)
  | .branch _ _, [] => .error .truncated
  | .branch zero one, b :: bits => if b then decode one bits else decode zero bits

/-- The path of a code word: so many bits of a number, most significant first. -/
def wordPath (len word : Nat) : List Bool :=
  (List.range len).reverse.map fun i => word.testBit i

/-- The longest code word. -/
def maxLength : Nat := 15

/-- Hand out the words of one length in the order of the symbols, from `word` on. -/
def insertLength (len : Nat) : Nat → List Nat → Nat → Code → Nat × Code
  | _, [], word, c => (word, c)
  | s, l :: lens, word, c =>
    if l = len then insertLength len (s + 1) lens (word + 1) (c.insert s (wordPath len word))
    else insertLength len (s + 1) lens word c

/-- Hand out the words of all lengths, shorter ones first; `left` lengths are still to come. -/
def insertAll (lens : List Nat) : Nat → Nat → Nat → Code → Code
  | 0, _, _, c => c
  | left + 1, len, word, c =>
    let (word, c) := insertLength len 0 lens (word * 2) c
    insertAll lens left (len + 1) word c

/-- The canonical code with these word lengths by symbol; length zero means no word. The words must
fill the code exactly, unless `mayBeSparse` holds and all of them have one bit. Where there are no
words a bit is read all the same and leads to `idle`, whichever it is. -/
def ofLengths (mayBeSparse : Bool) (idle : Code) (lens : List Nat) : Option Code :=
  let used := lens.filter (· ≠ 0)
  let filled := used.foldr (fun l n => (1 <<< (maxLength - l)) + n) 0
  let sparse := filled < 1 <<< maxLength ∧ mayBeSparse ∧ used.all (· = 1)
  if used = [] then some (.branch idle idle)
  else if filled = 1 <<< maxLength ∨ sparse then some (insertAll lens maxLength 1 0 .none)
  else .none

end Code

/-! ## Blocks -/

/-- How the bytes so far and the bits that are left stand after a part of a stream. -/
structure Progress where
  out : Array UInt8
  bits : List Bool

/-- The smallest length that a length symbol stands for, and how many bits add to it. -/
def lengthTable : List (Nat × Nat) :=
  [(3, 0), (4, 0), (5, 0), (6, 0), (7, 0), (8, 0), (9, 0), (10, 0), (11, 1), (13, 1), (15, 1),
   (17, 1), (19, 2), (23, 2), (27, 2), (31, 2), (35, 3), (43, 3), (51, 3), (59, 3), (67, 4),
   (83, 4), (99, 4), (115, 4), (131, 5), (163, 5), (195, 5), (227, 5), (258, 0)]

/-- The smallest distance that a distance symbol stands for, and how many bits add to it. -/
def distanceTable : List (Nat × Nat) :=
  [(1, 0), (2, 0), (3, 0), (4, 0), (5, 1), (7, 1), (9, 2), (13, 2), (17, 3), (25, 3), (33, 4),
   (49, 4), (65, 5), (97, 5), (129, 6), (193, 6), (257, 7), (385, 7), (513, 8), (769, 8),
   (1025, 9), (1537, 9), (2049, 10), (3073, 10), (4097, 11), (6145, 11), (8193, 12), (12289, 12),
   (16385, 13), (24577, 13)]

/-- The number that a symbol and the bits behind it stand for. -/
def takeFromTable (table : List (Nat × Nat)) (symbol : Nat) (bits : List Bool) :
    Except Fault (Nat × List Bool) :=
  match table[symbol]? with
  | none => .error (.corrupt bits)
  | some (least, extra) =>
    match takeNumber extra bits with
    | .error e => .error e
    | .ok (n, bits) => .ok (least + n, bits)

/-- Repeat what was written `distance` bytes ago. -/
def copyBack (distance : Nat) : Nat → Array UInt8 → Array UInt8
  | 0, out => out
  | n + 1, out => copyBack distance n (out.push (out[out.size - distance]?.getD 0))

/-- The length and the distance of a copy, given its length symbol. -/
def takeCopy (distances : Code) (symbol : Nat) (bits : List Bool) :
    Except Fault ((Nat × Nat) × List Bool) := do
  let (length, bits) ← takeFromTable lengthTable (symbol - 257) bits
  let (s, bits) ← distances.decode bits
  let (distance, bits) ← takeFromTable distanceTable s bits
  return ((length, distance), bits)

/-- Decode symbols up to the end of a block. -/
def symbols (literals distances : Code) : Nat → Progress → Progress × Option Fault
  | 0, p => (p, some .truncated)
  | left + 1, p =>
    match literals.decode p.bits with
    | .error e => (p, some e)
    | .ok (s, bits) =>
      if s < 256 then symbols literals distances left ⟨p.out.push s.toUInt8, bits⟩
      else if s = 256 then (⟨p.out, bits⟩, none)
      else
        match takeCopy distances s bits with
        | .error e => (p, some e)
        | .ok ((length, distance), bits) =>
          if p.out.size < distance then (p, some (.copyTooFar bits))
          else symbols literals distances left ⟨copyBack distance length p.out, bits⟩

/-- Take so many bytes as they are. -/
def literalBytes : Nat → Progress → Progress × Option Fault
  | 0, p => (p, none)
  | n + 1, p =>
    match takeNumber 8 p.bits with
    | .error e => (p, some e)
    | .ok (b, bits) => literalBytes n ⟨p.out.push b.toUInt8, bits⟩

/-- A block of bytes as they are: it starts at a byte, with their number and its complement. -/
def storedBlock (p : Progress) : Progress × Option Fault :=
  let bits := p.bits.drop (p.bits.length % 8)
  match takeNumber 16 bits with
  | .error e => (p, some e)
  | .ok (len, bits) =>
    match takeNumber 16 bits with
    | .error e => (p, some e)
    | .ok (complement, bits) =>
      if len + complement ≠ 0xFFFF then (p, some (.corrupt bits))
      else literalBytes len ⟨p.out, bits⟩

/-- The code of literals and lengths in blocks that bring none. -/
def fixedLiterals : List Nat :=
  List.replicate 144 8 ++ List.replicate 112 9 ++ List.replicate 24 7 ++ List.replicate 8 8

/-- The code of distances in blocks that bring none. -/
def fixedDistances : List Nat := List.replicate 32 5

/-- The order in which the lengths of the words for lengths come. -/
def lengthOrder : List Nat :=
  [16, 17, 18, 0, 8, 7, 9, 6, 10, 5, 11, 4, 12, 3, 13, 2, 14, 1, 15]

/-- So many numbers of three bits. -/
def takeTriples : Nat → List Bool → Except Fault (List Nat × List Bool)
  | 0, bits => .ok ([], bits)
  | n + 1, bits => do
    let (v, bits) ← takeNumber 3 bits
    let (vs, bits) ← takeTriples n bits
    return (v :: vs, bits)

/-- At least how often a length is repeated, and how many bits add to that. -/
def repeatRule (symbol : Nat) : Nat × Nat :=
  if symbol = 16 then (3, 2) else if symbol = 17 then (3, 3) else (11, 7)

/-- The length that is repeated: the last one, or zero. -/
def repeatedLength (last : Option Nat) (symbol : Nat) (bits : List Bool) : Except Fault Nat :=
  if symbol = 16 then
    match last with
    | none => .error (.corrupt bits)
    | some l => .ok l
  else .ok 0

/-- Decode word lengths until there are `total` of them; `lens` are those so far, newest first. -/
def takeLengths (code : Code) (total : Nat) :
    Nat → List Nat → List Bool → Except Fault (List Nat × List Bool)
  | 0, _, _ => .error .truncated
  | left + 1, lens, bits => do
    if lens.length = total then return (lens.reverse, bits)
    if total < lens.length then throw (.corrupt bits)
    let (s, bits) ← code.decode bits
    if s < 16 then takeLengths code total left (s :: lens) bits
    else
      let (least, extra) := repeatRule s
      let (n, bits) ← takeNumber extra bits
      let l ← repeatedLength lens.head? s bits
      takeLengths code total left (List.replicate (least + n) l ++ lens) bits

/-- The code with these word lengths, which end in front of `bits`. -/
def checkedCode (mayBeSparse : Bool) (idle : Code) (lens : List Nat) (bits : List Bool) :
    Except Fault Code :=
  match Code.ofLengths mayBeSparse idle lens with
  | some c => .ok c
  | none => .error (.corrupt bits)

/-- The codes that a block brings. -/
def takeCodes (bits : List Bool) : Except Fault ((Code × Code) × List Bool) := do
  let (hlit, bits) ← takeNumber 5 bits
  let (hdist, bits) ← takeNumber 5 bits
  let (hclen, bits) ← takeNumber 4 bits
  let literalCount := hlit + 257
  let distanceCount := hdist + 1
  if 286 < literalCount ∨ 30 < distanceCount then throw (.corrupt bits)
  let (triples, bits) ← takeTriples (hclen + 4) bits
  let given := lengthOrder.zip triples
  let lengthLengths := (List.range 19).map fun s =>
    ((given.find? fun e => e.1 = s).map (·.2)).getD 0
  let lengthCode ← checkedCode false (.symbol 0) lengthLengths bits
  let total := literalCount + distanceCount
  let (lens, bits) ← takeLengths lengthCode total (total + 1) [] bits
  if lens[256]?.getD 0 = 0 then throw (.corrupt bits)
  let literals ← checkedCode true .none (lens.take literalCount) bits
  let distances ← checkedCode true .none (lens.drop literalCount) bits
  return ((literals, distances), bits)

/-- A block with symbols, given its codes and the bits behind them. -/
def symbolBlock (p : Progress) (codes : Except Fault ((Code × Code) × List Bool)) :
    Progress × Option Fault :=
  match codes with
  | .error e => (p, some e)
  | .ok ((literals, distances), bits) =>
    symbols literals distances (bits.length + 1) ⟨p.out, bits⟩

/-- The codes of a block that brings none. -/
def fixedCodes (bits : List Bool) : Except Fault ((Code × Code) × List Bool) := do
  return ((← checkedCode false .none fixedLiterals bits,
    ← checkedCode false .none fixedDistances bits), bits)

/-- Decode blocks up to the last one. -/
def blocks : Nat → Progress → Progress × Option Fault
  | 0, p => (p, some .truncated)
  | left + 1, p =>
    match takeNumber 1 p.bits with
    | .error e => (p, some e)
    | .ok (last, bits) =>
      match takeNumber 2 bits with
      | .error e => (p, some e)
      | .ok (type, bits) =>
        let p : Progress := ⟨p.out, bits⟩
        let (p, fault?) :=
          if type = 0 then storedBlock p
          else if type = 1 then symbolBlock p (fixedCodes bits)
          else if type = 2 then symbolBlock p (takeCodes bits)
          else (p, some (.corrupt bits))
        match fault? with
        | some e => (p, some e)
        | none => if last = 1 then (p, none) else blocks left p

/-- A decoded stream. -/
structure Decoded where
  input : Bytes
  /-- What it decodes to, as far as it does. -/
  content : Bytes
  fault? : Option Fault
  /-- The bytes behind the stream. -/
  rest : Bytes

/-- The bytes of an input whose bits are all left. -/
def wholeBytesLeft (input : Bytes) (left : List Bool) : Bytes :=
  input.drop (input.length - left.length / 8)

/-- Decode the stream at the start of a byte string. -/
def decode (input : Bytes) : Decoded :=
  let bits := bitsOf input
  let (p, fault?) := blocks (bits.length + 1) ⟨#[], bits⟩
  { input
    content := p.out.toList
    fault?
    rest := wholeBytesLeft input p.bits }

/-! ## Reading a stream -/

/-- The stream means nothing. -/
def corruptError : IoError := .said .invalidInput "corrupt deflate stream"

/-- The stream ends too early. -/
def truncatedError : IoError := .said .unexpectedEof "incomplete deflate stream"

/-- How many bytes of its input a decoder fetches at a time. -/
def portion : Nat := 32768

/-- The bytes of an input that come in earlier portions than the last one of those that have been
used; `ahead` bytes come in front of the input. -/
def earlierPortions (ahead : Nat) (input : Bytes) (left : List Bool) : Bytes :=
  let used := input.length - (wholeBytesLeft input left).length
  input.take ((ahead + used - 1) / portion * portion - ahead)

/-- What a reader of a stream hands out; `ahead` bytes were fetched in front of the stream. What can
be decoded from earlier portions than the one that shows a fault is handed out before. -/
def Decoded.reader (d : Decoded) (ahead : Nat) : Reader :=
  let doom (left : List Bool) (wanted : Bytes) : Reader :=
    let sooner := (decode (earlierPortions ahead d.input left)).content
    [.data sooner none, .doomed (d.content.drop sooner.length ++ wanted) corruptError]
  match d.fault? with
  | none => [.data d.content none]
  | some .truncated => [.data d.content none, .fault truncatedError]
  | some (.corrupt left) => doom left []
  | some (.copyTooFar left) => doom left [0]

/-- How far a stream has been read. -/
inductive Stage
  /-- Packed bytes come in, and there may be more. -/
  | gathering (packed : Bytes)
  /-- All packed bytes are there. -/
  | reading (content : Reader)

/-- The decoder of a stream. It wants all packed bytes before it gives the first one; as nobody sees
when a package is read, this does not show. -/
def decoder : Decoder Stage where
  start := .gathering []
  step
    | .gathering packed, _ => .wants (portion - 1) fun piece =>
      if piece.isEmpty then .reading ((decode packed).reader 0) else .gathering (packed ++ piece)
    | .reading content, room =>
      if room = 0 then .gives [] (.reading content)
      else
        match content.read room with
        | (.ok piece, content) => .gives piece (.reading content)
        | (.error e, content) => .fails e (.reading content)
  gives_le s room piece next h := by
    cases s with
    | gathering packed => cases h
    | reading content =>
      dsimp only at h
      split at h
      · cases h
        exact Nat.zero_le _
      · split at h
        · next hread =>
          cases h
          exact Reader.length_read_le hread
        · cases h
  patience
    | .gathering _ => 1
    | .reading _ => 0
  patience_lt s room more next h := by
    cases s with
    | gathering packed =>
      cases h
      exact Nat.zero_lt_one
    | reading content =>
      dsimp only at h
      split at h
      · cases h
      · split at h <;> cases h

end AssetUnpack.Deflate
