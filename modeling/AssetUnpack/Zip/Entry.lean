import AssetUnpack.Checksum
import AssetUnpack.Deflate
import AssetUnpack.Zip.Archive

/-!
# Reading an entry

An entry is read through the one cursor of its package. Its bytes in the package are fetched from
there on as they are needed, at most as many as the directory promised, and go through a decoder
unless the entry is stored as it is. A package may give fewer bytes than there is room for: every
read is told how short each of its fetches may fall.

An `Account` counts what is handed out and keeps the running checksum. Only when there is nothing left
does it compare both with what the directory promised, and the reader reports the end of the file
only if they agree. What was handed out before may therefore be incomplete or wrong, but it is never
taken for the whole.
-/

namespace AssetUnpack.Zip

/-- Where the data of an entry is and what it must come to. -/
structure Span where
  start : Nat
  compressedSize : Nat
  size : Nat
  crc32 : Nat
  methodCode : Nat
  deriving DecidableEq

/-! ## Accounts -/

/-- What an entry must come to, and what was handed out of it so far. -/
structure Account where
  size : Nat
  crc32 : Nat
  /-- Number of bytes handed out. -/
  delivered : Nat
  /-- Running checksum of the bytes handed out. -/
  running : UInt32

namespace Account

/-- The account with a piece counted as handed out. -/
def count (a : Account) (piece : Bytes) : Account :=
  { a with
    delivered := a.delivered + piece.length
    running := Checksum.update a.running piece }

/-- What is wrong with an entry that has nothing left. -/
def verdict (a : Account) : Option IoError :=
  if a.delivered ≠ a.size then
    some (.said .unexpectedEof
      ("entry ended after " ++ toString a.delivered ++ " of " ++ toString a.size ++ " bytes"))
  else if (Checksum.finish a.running).toNat ≠ a.crc32 then
    some (.said .invalidData "entry CRC-32 mismatch")
  else none

end Account

/-- The account of an entry of which nothing was handed out. -/
def Span.account (span : Span) : Account := ⟨span.size, span.crc32, 0, Checksum.start⟩

/-! ## Fetching -/

/-- The bytes of a package from a cursor on, no more than so many. -/
def fetch (bytes : Bytes) (cursor count : Nat) : Bytes := (bytes.drop cursor).take count

/-- Where the cursor of a package is, and how many bytes of an entry come behind it. -/
structure Intake where
  cursor : Nat
  remaining : Nat

/-- The bytes that one fetch into so much room gets of an entry. No more than `least + 1` come; none
come only if there is no room or nothing left. -/
def Intake.piece (i : Intake) (bytes : Bytes) (room least : Nat) : Bytes :=
  fetch bytes i.cursor (min (min i.remaining room) (least + 1))

/-- What is left of an entry once a piece was fetched. -/
def Intake.past (i : Intake) (piece : Bytes) : Intake :=
  ⟨i.cursor + piece.length, i.remaining - piece.length⟩

theorem Intake.length_piece_le (i : Intake) (bytes : Bytes) (room least : Nat) :
    (i.piece bytes room least).length ≤ i.remaining := by
  rw [piece, fetch, List.length_take]
  omega

/-- Ask a decoder for bytes and fetch what it wants of the package first; the fetches fall as short
as `least` tells, one after the other. -/
def Intake.unpack {δ : Type} (dec : Decoder δ) (bytes : Bytes) (room : Nat) (least : Nat → Nat)
    (i : Intake) (s : δ) : Except IoError Bytes × Intake × δ :=
  match h : dec.step s room with
  | .gives piece next => (.ok piece, i, next)
  | .fails e next => (.error e, i, next)
  | .wants more next =>
    let piece := i.piece bytes (more + 1) (least 0)
    unpack dec bytes room (fun n => least (n + 1)) (i.past piece) (next piece)
termination_by (i.remaining, dec.patience s)
decreasing_by
  have hle := i.length_piece_le bytes (more + 1) (least 0)
  generalize i.piece bytes (more + 1) (least 0) = piece at hle ⊢
  cases piece with
  | nil => exact Prod.Lex.right _ (dec.patience_lt s room more next h)
  | cons b piece =>
    apply Prod.Lex.left
    simp only [past, List.length_cons] at hle ⊢
    omega

/-! ## Readers -/

/-- A reader of an entry. -/
structure EntryReader (δ : Type) where
  /-- How many bytes of the entry were not fetched yet. -/
  remaining : Nat
  /-- The decoder, unless the entry is stored as it is. -/
  decoding : Option δ
  account : Account

namespace EntryReader

variable {δ : Type} (dec : Decoder δ) (bytes : Bytes) (cursor : Nat) (r : EntryReader δ)
  (room : Nat) (least : Nat → Nat)

/-- What there is to hand out for one read, and the cursor and the reader after it. -/
def takePiece : Except IoError Bytes × Nat × EntryReader δ :=
  let i : Intake := ⟨cursor, r.remaining⟩
  match r.decoding with
  | none =>
    let piece := i.piece bytes room (least 0)
    let i := i.past piece
    (.ok piece, i.cursor, { r with remaining := i.remaining })
  | some s =>
    let (result, i, s) := i.unpack dec bytes room least s
    (result, i.cursor, { r with remaining := i.remaining, decoding := some s })

/-- One read with room for `room` bytes: the bytes or the failure, the cursor and the reader after
it. Without room nothing is verified. -/
def read : Except IoError Bytes × Nat × EntryReader δ :=
  match takePiece dec bytes cursor r room least with
  | (.error e, cursor, r) => (.error e, cursor, r)
  | (.ok piece, cursor, r) =>
    let r := { r with account := r.account.count piece }
    if piece = [] ∧ room ≠ 0 then
      match r.account.verdict with
      | some e => (.error e, cursor, r)
      | none => (.ok [], cursor, r)
    else (.ok piece, cursor, r)

end EntryReader

/-- The reader of an entry. The cursor of its package is at the start of the entry then. -/
def Span.reader {δ : Type} (dec : Decoder δ) (span : Span) : Packing → EntryReader δ
  | .stored => ⟨span.compressedSize, none, span.account⟩
  | .deflated => ⟨span.compressedSize, some dec.start, span.account⟩

/-- Everything that a reader of an entry hands out to somebody who reads it to its end: the content
and then the verdict on it. -/
def Span.supplies (span : Span) (packing : Packing) (bytes : Bytes) : Reader :=
  let packed := fetch bytes span.start span.compressedSize
  let content : Reader :=
    match packing with
    | .stored => .ofBytes packed
    | .deflated => (Deflate.decode packed).reader 0
  content ++ (span.account.count content.drain.1).verdict.toList.map .fault

end AssetUnpack.Zip
