import AssetUnpack.Disk.Lookup
import AssetUnpack.Event
import AssetUnpack.Stream.Reader

/-!
# Sources of assets

A source answers three questions about the paths of a namespace: which names stand below a path,
whether it is a file or a directory, and what opening it gives. A source that reads a directory
answers from the disk as it is at that moment, so every question takes the disk, and the bytes
behind an opened asset are those on the disk when they are read.

`list_deep` makes every walk over a source finite: no path at `depthLimit` or deeper has names
below it.
-/

namespace AssetUnpack

/-- What a node of a namespace is. -/
inductive NodeKind
  | file | directory
  deriving DecidableEq

/-- The bytes behind an opened asset, given the disk when they are read. -/
abbrev Content := Disk → Reader

/-- A namespace of assets. -/
structure Source where
  /-- The names below a path, and what was noticed while listing. No names for a file, an empty
  directory or a path that is not there. -/
  list : Disk → AssetPath → Except IoError (List String) × List Event
  /-- What a path is, if the source can tell. -/
  kind : Disk → AssetPath → Option NodeKind
  /-- Open an asset. `busy` holds while an asset opened earlier is still being read. -/
  openAsset : Disk → (busy : Bool) → AssetPath → Except IoError Content
  /-- No path this deep has names below it. -/
  depthLimit : Nat
  list_deep : ∀ disk path, depthLimit ≤ path.depth →
    ∀ names, (list disk path).1 = .ok names → names = []

namespace Source

/-- Opening and reading an asset to its end. -/
def readAll (s : Source) (disk : Disk) (busy : Bool) (path : AssetPath) : Except IoError Bytes :=
  match s.openAsset disk busy path with
  | .error e => .error e
  | .ok content =>
    match Reader.drain (content disk) with
    | (bytes, none) => .ok bytes
    | (_, some e) => .error e

/-- A path that has names below it lies above the depth limit. -/
theorem depth_lt_of_list {s : Source} {disk : Disk} {path : AssetPath} {name : String}
    {names : List String} (h : (s.list disk path).1 = .ok (name :: names)) :
    path.depth < s.depthLimit := by
  by_cases hd : s.depthLimit ≤ path.depth
  · exact absurd (s.list_deep disk path hd _ h) (by simp)
  · omega

end Source

end AssetUnpack
