import AssetUnpack.Zip.Package

/-!
# Packages in use

All entries of a package are read through its one cursor. Who opens an entry is lent the cursor,
which is moved to the start of the entry, and keeps it until the reader is dropped; meanwhile no
other entry can be opened. An entry that nobody can unpack shows only when the cursor has been moved
already, and the cursor is given back at once.

Readers are known by numbers. `Use` is what a client can do with them, in any order.
-/

namespace AssetUnpack.Zip

/-- A package in use. -/
structure Session (δ : Type) where
  package : Package
  bytes : Bytes
  cursor : Nat
  /-- Whether somebody has the cursor. -/
  lent : Bool
  /-- The readers that are live. -/
  readers : Table Nat (EntryReader δ)
  /-- How many readers were made; the next one gets this number. -/
  made : Nat

/-- What a client can do. -/
inductive Use
  | openEntry (path : AssetPath)
  /-- A read into so much room, whose fetches fall as short as `least` tells. -/
  | read (number room : Nat) (least : Nat → Nat)
  | drop (number : Nat)

/-- What a client is answered. -/
inductive Reply
  /-- The number of the new reader, or why there is none. -/
  | opened (result : Except IoError Nat)
  | read (result : Except IoError Bytes)
  | dropped
  /-- There is no live reader with this number. -/
  | noReader

namespace Session

variable {δ : Type}

/-- A package that nobody has read from. -/
def start (p : Package) (bytes : Bytes) : Session δ := ⟨p, bytes, 0, false, .empty, 0⟩

/-- Lend the cursor to somebody who moves it. -/
def lend (s : Session δ) (cursor : Nat) : Session δ := { s with cursor, lent := true }

/-- Take the cursor back. It stays where it is. -/
def giveBack (s : Session δ) : Session δ := { s with lent := false }

/-- Open the entry at a path. -/
def openEntry (dec : Decoder δ) (s : Session δ) (path : AssetPath) :
    Except IoError Nat × Session δ :=
  match s.package.tree.leafAt path with
  | .error e => (.error e, s)
  | .ok span =>
    if s.lent then (.error busyError, s)
    else
      let lending := s.lend span.start
      match Packing.ofCode? span.methodCode with
      | none => (.error (unsupportedError path span.methodCode), lending.giveBack)
      | some packing =>
        (.ok s.made,
          { lending with
            readers := s.readers.put s.made (span.reader dec packing)
            made := s.made + 1 })

/-- Do what a client wants. -/
def perform (dec : Decoder δ) (s : Session δ) : Use → Reply × Session δ
  | .openEntry path =>
    let (result, s) := s.openEntry dec path
    (.opened result, s)
  | .read number room least =>
    match s.readers.get? number with
    | none => (.noReader, s)
    | some r =>
      let (result, cursor, r) := r.read dec s.bytes s.cursor room least
      (.read result, { s with cursor, readers := s.readers.put number r })
  | .drop number =>
    match s.readers.get? number with
    | none => (.noReader, s)
    | some _ =>
      (.dropped, { s.giveBack with readers := s.readers.eraseWhere (· = number) })

/-- Do what clients want, one after the other. -/
def performAll (dec : Decoder δ) (s : Session δ) : List Use → List Reply × Session δ
  | [] => ([], s)
  | use :: uses =>
    let (reply, s) := s.perform dec use
    let (replies, s) := s.performAll dec uses
    (reply :: replies, s)

end Session

end AssetUnpack.Zip
