import AssetUnpack.Bytes
import AssetUnpack.Table

/-!
# The state of a disk

A disk is a finite table from places to entries. A place is the list of names that leads from the
root to an entry through directories only, so an entry has exactly one place, and two places are
the same file exactly when they are equal. Links are entries of their own and are followed only
when a path is looked up.

Every file has a number of its own, given when it is made. Whoever keeps a file open knows it by
that number: `contentOf` gives what the file holds now, be it still in its place or removed from it,
and a new file in the same place has another number.
-/

namespace AssetUnpack

/-- Where an entry is: names from the root of the disk. -/
abbrev Place := List String

/-- The devices that a path can lead to. -/
inductive Device
  /-- Takes everything and keeps nothing. -/
  | null
  /-- Has no room for a single byte. -/
  | full
  deriving DecidableEq

/-- What can stand at a place. -/
inductive DiskEntry
  | directory
  | file (number : Nat) (content : Bytes)
  | link (target : String)
  | device (d : Device)
  deriving DecidableEq

/-- Whether an entry is a directory. -/
def DiskEntry.isDirectory : DiskEntry → Bool
  | .directory => true
  | _ => false

/-- The state of a disk, and the directory where relative paths start. -/
structure Disk where
  table : Table Place DiskEntry
  workingDirectory : Place
  /-- How many files have been made; the next one gets this number. -/
  filesMade : Nat
  /-- The contents of files that stand in no place any more, by number. -/
  removed : Table Nat Bytes
  /-- The directories that whoever is at work here may not write to. The system says so when it is
  asked; nobody asks but who looks for a place to extract into. -/
  writeProtected : List Place

namespace Disk

/-- A disk with nothing on it. -/
def empty (workingDirectory : Place) : Disk := ⟨.empty, workingDirectory, 0, .empty, []⟩

/-- The entry at a place; the root is always a directory. -/
def get? (d : Disk) (place : Place) : Option DiskEntry :=
  if place = [] then some .directory else d.table.get? place

/-- The disk with an entry put at a place. -/
def put (d : Disk) (place : Place) (entry : DiskEntry) : Disk :=
  { d with table := d.table.put place entry }

/-- The disk with a new file put at a place. -/
def putFile (d : Disk) (place : Place) (content : Bytes) : Disk :=
  { d.put place (.file d.filesMade content) with filesMade := d.filesMade + 1 }

/-- The disk without a place and everything below it. The files there keep what they hold. -/
def removeTree (d : Disk) (place : Place) : Disk :=
  let removed := d.table.entries.foldl (fun removed e =>
    match e with
    | (p, .file number content) =>
      if place.isPrefixOf p then removed.put number content else removed
    | _ => removed) d.removed
  { d with table := d.table.eraseWhere fun p => place.isPrefixOf p, removed }

/-- What the file with a number holds. -/
def contentOf (d : Disk) (number : Nat) : Bytes :=
  let standing := d.table.entries.findSome? fun e =>
    match e.2 with
    | .file n content => if n = number then some content else none
    | _ => none
  (standing.orElse fun _ => d.removed.get? number).getD []

/-- The names in a directory, in no order that matters. -/
def namesIn (d : Disk) (place : Place) : List String :=
  d.table.keys.filterMap fun p =>
    match p.getLast? with
    | none => none
    | some name => if p.dropLast = place then some name else none

/-- The path of a place from the root. -/
def pathOf (place : Place) : String := "/" ++ "/".intercalate place

/-- A put changes the answer at its own place and at no other. -/
theorem get?_put (d : Disk) (place q : Place) (entry : DiskEntry) (h : place ≠ []) :
    (d.put place entry).get? q = if q = place then some entry else d.get? q := by
  unfold get? put
  by_cases hq : q = []
  · subst hq
    simp [h.symm]
  · simp [hq]

end Disk

end AssetUnpack
