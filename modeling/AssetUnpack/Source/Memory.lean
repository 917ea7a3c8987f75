import AssetUnpack.NodeTree
import AssetUnpack.Source

/-!
# Sources held in memory

An index whose leaves are contents is a source by itself. It can tell what its nodes are, or, when
it is made unclassified, keep that to itself.
-/

namespace AssetUnpack

/-- Files and directories held in memory. -/
abbrev MemoryTree := NodeTree Bytes

namespace MemoryTree

/-- Add a file at the path that a text spells. -/
def insertFile (t : MemoryTree) (path : String) (content : Bytes) :
    Except InvalidPath MemoryTree := do
  t.insertLeaf (← AssetPath.parse path) content

/-- Add a directory at the path that a text spells. -/
def insertDirectory (t : MemoryTree) (path : String) : Except InvalidPath MemoryTree := do
  t.ensureDirectory (← AssetPath.parse path)

end MemoryTree

namespace NodeTree

variable {α : Type}

/-- What the node at a path is. -/
def kind? (t : NodeTree α) (p : AssetPath) : Option NodeKind :=
  (t.get? p).map fun
    | .leaf _ => .file
    | .directory _ => .directory

/-- The leaf at a path, or the error that opening the path gives. -/
def leafAt (t : NodeTree α) (p : AssetPath) : Except IoError α :=
  match t.get? p with
  | some (.leaf value) => .ok value
  | some (.directory _) => .error (.said .other ("asset '" ++ p.text ++ "' is a directory"))
  | none => .error (.said .notFound ("asset '" ++ p.text ++ "' not found"))

end NodeTree

namespace Source

/-- The source of an index in memory. -/
def ofMemory (t : MemoryTree) (classified : Bool) : Source where
  list _ p := (.ok ((t.children p).map (·.text)), [])
  kind _ p := if classified then t.kind? p else none
  openAsset _ _ p := (t.leafAt p).map fun content _ => .ofBytes content
  depthLimit := t.depthLimit
  list_deep _ p h names hn := by
    have : (t.children p).map (·.text) = names := Except.ok.inj hn
    rw [← this, t.children_deep h]
    rfl

end Source

end AssetUnpack
