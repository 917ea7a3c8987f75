import AssetUnpack.Disk.Basic
import AssetUnpack.HostPath
import AssetUnpack.IoError

/-!
# Looking up a path

A lookup walks through the steps of a path, one name at a time, from the root or from the working
directory. `.` and an empty step stay, `..` goes to the directory above, and a link puts the steps
of its target in front of those that are left. Every step needs a directory to start from.

The walk ends because only a limited number of links is followed: between two links it consumes the
steps that are left, and the budget of links is consumed by each link.
-/

namespace AssetUnpack

/-- Where a path leads. -/
inductive Found
  /-- To an entry. -/
  | entry (place : Place) (e : DiskEntry)
  /-- To a name that is free in an existing directory. -/
  | vacant (directory : Place) (name : String)
  deriving DecidableEq

/-- What a path is looked up for. -/
inductive Purpose
  /-- To get at the entry that it names, be it a link. -/
  | entry
  /-- To get at what it leads to. -/
  | target
  /-- To make a file where it leads to. A path that asks for a directory will not do. -/
  | creation
  deriving DecidableEq

namespace Disk

/-- The longest name of an entry, in bytes. -/
def nameLimit : Nat := 255

/-- A path of this many bytes is too long. -/
def pathLimit : Nat := 4096

/-- The most links that one lookup follows. -/
def linkLimit : Nat := 40

/-- Walk through steps from a place. A link at the end is not followed where it is looked up itself;
the walk goes on with `onLink` behind every link that is followed. -/
def walkWith (d : Disk) (purpose : Purpose)
    (onLink : Place → List String → Except IoError Found) :
    Place → List String → Except IoError Found
  | at_, [] =>
    match d.get? at_ with
    | some e => .ok (.entry at_ e)
    | none => .error .noEntry
  | at_, step :: rest =>
    match d.get? at_ with
    | none => .error .noEntry
    | some .directory =>
      if step = "." ∨ step = "" then walkWith d purpose onLink at_ rest
      else if step = ".." then walkWith d purpose onLink at_.dropLast rest
      else if purpose = .creation ∧ rest = [""] then .error .isDirectory
      else if nameLimit < step.utf8ByteSize then .error .nameTooLong
      else
        match d.get? (at_ ++ [step]) with
        | none => if rest.isEmpty then .ok (.vacant at_ step) else .error .noEntry
        | some (.link target) =>
          if rest.isEmpty ∧ purpose = .entry then .ok (.entry (at_ ++ [step]) (.link target))
          else if target = "" then .error .noEntry
          else
            let path : HostPath := ⟨target⟩
            onLink (if path.isAbsolute then [] else at_) (path.steps ++ rest)
        | some _ => walkWith d purpose onLink (at_ ++ [step]) rest
    | some _ => .error .notDirectory

/-- Walk through steps from a place, following at most so many links. -/
def walk (d : Disk) (purpose : Purpose) : Nat → Place → List String → Except IoError Found
  | 0 => walkWith d purpose fun _ _ => .error .tooManyLinks
  | links + 1 => walkWith d purpose (walk d purpose links)

/-- The path, if it is one that can be asked for at all. -/
def checkPath (path : HostPath) : Except IoError HostPath :=
  if path.text = "" then .error .noEntry
  else if '\x00' ∈ path.text.toList then .error .nulInPath
  else if pathLimit ≤ path.text.utf8ByteSize then .error .nameTooLong
  else .ok path

/-- Where a path leads. -/
def find (d : Disk) (purpose : Purpose) (path : HostPath) : Except IoError Found := do
  let path ← checkPath path
  walk d purpose linkLimit (if path.isAbsolute then [] else d.workingDirectory) path.steps

/-- The entry that a path leads to through all links, and its place. -/
def resolve (d : Disk) (path : HostPath) : Except IoError (Place × DiskEntry) :=
  match d.find .target path with
  | .error e => .error e
  | .ok (.vacant _ _) => .error .noEntry
  | .ok (.entry place e) => .ok (place, e)

/-- Whether a path leads to anything. -/
def hasEntry (d : Disk) (path : HostPath) : Bool :=
  match d.resolve path with
  | .ok _ => true
  | .error _ => false

/-- Whether a path leads to a directory. -/
def hasDirectory (d : Disk) (path : HostPath) : Bool :=
  match d.resolve path with
  | .ok (_, e) => e.isDirectory
  | .error _ => false

/-- What reading the file at a place gives. A device gives nothing. -/
def contentAt (d : Disk) (place : Place) : Bytes :=
  match d.get? place with
  | some (.file _ content) => content
  | _ => []

end Disk

end AssetUnpack
