import AssetUnpack.Disk.Lookup
import AssetUnpack.Stream.Copy

/-!
# Changing a disk

Files are created or emptied, written to and removed; directories are made one at a time or with
all that is missing above them. Every change is a put of one entry at one place, and a change that
fails leaves the disk as it was, except that `makeDirectories` keeps the directories it had made.
-/

namespace AssetUnpack

namespace Disk

/-- Create the file that a path leads to, or empty it if it is there; gives its place. -/
def createFile (d : Disk) (path : HostPath) : Except IoError (Place × Disk) :=
  match d.find .creation path with
  | .error e => .error e
  | .ok (.vacant directory name) =>
    let place := directory ++ [name]
    .ok (place, d.putFile place [])
  | .ok (.entry _ .directory) => .error .isDirectory
  | .ok (.entry place (.device _)) => .ok (place, d)
  | .ok (.entry place (.file number _)) => .ok (place, d.put place (.file number []))
  | .ok (.entry _ (.link _)) => .error .tooManyLinks

/-- Make one directory. -/
def makeDirectory (d : Disk) (path : HostPath) : Except IoError Disk :=
  match d.find .entry path with
  | .error e => .error e
  | .ok (.vacant directory name) => .ok (d.put (directory ++ [name]) .directory)
  | .ok (.entry _ _) => .error .entryExists

/-- Make the first of a list of directories, each the parent of the one before it; where something
above it is missing, make the others first. A directory that is there already is no failure. -/
def makeChain (d : Disk) : List HostPath → Option IoError × Disk
  | [] => (none, d)
  | path :: above =>
    match d.makeDirectory path with
    | .ok d => (none, d)
    | .error e =>
      if e.kind = .notFound then
        match makeChain d above with
        | (some e, d) => (some e, d)
        | (none, d) =>
          match d.makeDirectory path with
          | .ok d => (none, d)
          | .error e => if d.hasDirectory path then (none, d) else (some e, d)
      else if d.hasDirectory path then (none, d)
      else (some e, d)

/-- The paths above a path, nearest first, as its text shows them. -/
def above (path : HostPath) : List HostPath :=
  let parts := (Text.splitOn '/' path.text.toList).filter fun part => part ≠ [] ∧ part ≠ ['.']
  let start := if path.isAbsolute then "/" else ""
  ((List.range parts.length).reverse.map fun n =>
    (⟨start ++ String.ofList (Text.joinWith '/' (parts.take n))⟩ : HostPath)).filter (·.text ≠ "")

/-- Make a directory and all that is missing above it. -/
def makeDirectories (d : Disk) (path : HostPath) : Option IoError × Disk :=
  d.makeChain (path :: above path)

/-- What writing to the file at a place does to the disk: the bytes that were taken are its content.
A device keeps nothing. -/
def setContent (d : Disk) (place : Place) (content : Bytes) : Disk :=
  match d.get? place with
  | some (.file number _) => d.put place (.file number content)
  | _ => d

/-- How the entry at a place takes what is written to it. -/
def writerAt (d : Disk) (place : Place) : Writer Unit where
  write _ offered :=
    match d.get? place with
    | some (.device .full) => (.failed .noSpace, ())
    | _ => (.accepted offered.length, ())
  flush _ := (none, ())
  patience _ := 0
  patience_lt _ offered h := by
    revert h
    split <;> simp

/-- Remove the entry that a path names, a directory with everything below it. -/
def remove (d : Disk) (path : HostPath) : Except IoError Disk :=
  match d.find .entry path with
  | .error e => .error e
  | .ok (.vacant _ _) => .error .noEntry
  | .ok (.entry place _) => .ok (d.removeTree place)

/-- Put a link at a free path. Its target can be any path, be something there or not. -/
def makeLink (d : Disk) (path : HostPath) (target : String) : Except IoError Disk := do
  let target ← checkPath ⟨target⟩
  match d.find .entry path with
  | .error e => .error e
  | .ok (.vacant directory name) => .ok (d.put (directory ++ [name]) (.link target.text))
  | .ok (.entry _ _) => .error .entryExists

end Disk

end AssetUnpack
