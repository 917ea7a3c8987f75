import AssetUnpack.AssetPath
import AssetUnpack.Table

/-!
# Trees of nodes

The index of a package maps every path in it to a leaf or to a directory with the names of its
children, oldest first. The root is always there. Adding a node adds the directories above it, and
an addition that meets a file where it needs a directory, or the reverse, changes nothing.
-/

namespace AssetUnpack

/-- A node of an index with leaves `α`. -/
inductive Node (α : Type)
  | leaf (value : α)
  | directory (children : List Name)

/-- An index: what stands at every path. -/
structure NodeTree (α : Type) where
  nodes : Table AssetPath (Node α)

namespace NodeTree

variable {α : Type}

/-- The index with nothing but the root. -/
def empty : NodeTree α := ⟨(Table.empty : Table AssetPath (Node α)).put .root (.directory [])⟩

/-- The node at a path. -/
def get? (t : NodeTree α) (p : AssetPath) : Option (Node α) := t.nodes.get? p

/-- The names below a path, oldest first. -/
def children (t : NodeTree α) (p : AssetPath) : List Name :=
  match t.get? p with
  | some (.directory names) => names
  | _ => []

/-- Number of nodes, the root included. -/
def size (t : NodeTree α) : Nat := t.nodes.size

/-- Add a directory at the path whose names are given last name first, with all that is missing
above it. -/
def ensureDirectoryAt (t : NodeTree α) : List Name → Except InvalidPath (NodeTree α)
  | [] =>
    match t.get? .root with
    | some (.directory _) => .ok t
    | some (.leaf _) => .error ⟨AssetPath.root.text, .fileAsDirectory⟩
    | none => .ok ⟨t.nodes.put .root (.directory [])⟩
  | name :: above =>
    let path : AssetPath := ⟨(name :: above).reverse⟩
    match t.get? path with
    | some (.directory _) => .ok t
    | some (.leaf _) => .error ⟨path.text, .fileAsDirectory⟩
    | none =>
      match ensureDirectoryAt t above with
      | .error e => .error e
      | .ok t =>
        let parent : AssetPath := ⟨above.reverse⟩
        let nodes := t.nodes.put parent (.directory (t.children parent ++ [name]))
        .ok ⟨nodes.put path (.directory [])⟩

/-- Add a directory with all that is missing above it. -/
def ensureDirectory (t : NodeTree α) (p : AssetPath) : Except InvalidPath (NodeTree α) :=
  t.ensureDirectoryAt p.names.reverse

/-- Add a leaf with all that is missing above it. A leaf that is there already gets the new value
and stays where it is among its siblings. -/
def insertLeaf (t : NodeTree α) (p : AssetPath) (value : α) : Except InvalidPath (NodeTree α) :=
  match t.get? p with
  | some (.directory _) => .error ⟨p.text, .directoryAsFile⟩
  | some (.leaf _) => .ok ⟨t.nodes.put p (.leaf value)⟩
  | none =>
    match p.names.reverse with
    | [] => .error ⟨p.text, .rootAsFile⟩
    | name :: above =>
      match t.ensureDirectoryAt above with
      | .error e => .error e
      | .ok t =>
        let parent : AssetPath := ⟨above.reverse⟩
        let nodes := t.nodes.put parent (.directory (t.children parent ++ [name]))
        .ok ⟨nodes.put p (.leaf value)⟩

/-- One level more than the deepest path in the index. -/
def depthLimit (t : NodeTree α) : Nat := AssetPath.depthBound t.nodes.keys

/-- Every node lies above the depth limit. -/
theorem depth_lt_of_get? {t : NodeTree α} {p : AssetPath} {n : Node α} (h : t.get? p = some n) :
    p.depth < t.depthLimit :=
  AssetPath.depth_lt_depthBound (Table.mem_keys.2 (by rw [get?] at h; simp [h]))

/-- A path at the depth limit or deeper has nothing below it. -/
theorem children_deep (t : NodeTree α) {p : AssetPath} (h : t.depthLimit ≤ p.depth) :
    t.children p = [] := by
  unfold children
  split
  · next names hn => exact absurd (depth_lt_of_get? hn) (by omega)
  · rfl

end NodeTree

end AssetUnpack
