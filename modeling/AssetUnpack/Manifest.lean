import AssetUnpack.Source

/-!
# Manifests

A manifest lists every node that can be reached from a starting node, each directory in front of
what is below it. Listing walks a source exactly as an extraction does and touches nothing.
-/

namespace AssetUnpack

/-- A node found on a walk. A node with children is a directory; one without is what its source
tells, if it tells. -/
structure ManifestEntry where
  path : AssetPath
  kind : Option NodeKind
  deriving DecidableEq

/-- The nodes found on a walk, in its order. -/
structure Manifest where
  root : AssetPath
  entries : List ManifestEntry := []
  /-- Nodes that could not be listed or had names that are none. -/
  nodesFailed : Nat := 0
  deriving DecidableEq

namespace Manifest

/-- Number of entries of a kind. -/
def count (m : Manifest) (kind : Option NodeKind) : Nat :=
  (m.entries.filter fun e => e.kind = kind).length

/-- Number of entries. -/
def totalEntries (m : Manifest) : Nat := m.entries.length

/-- Number of entries known to be files. -/
def totalFiles (m : Manifest) : Nat := m.count (some .file)

/-- Number of entries known to be directories. -/
def totalDirectories (m : Manifest) : Nat := m.count (some .directory)

/-- Number of entries that nobody knows what they are. -/
def totalUnknown (m : Manifest) : Nat := m.count none

/-- How far a listing has come. -/
structure Walk where
  manifest : Manifest
  events : List Event

namespace Walk

/-- Add an entry. -/
def push (w : Walk) (path : AssetPath) (kind : Option NodeKind) : Walk :=
  { w with manifest := { w.manifest with entries := w.manifest.entries ++ [⟨path, kind⟩] } }

/-- Note events. -/
def noteAll (w : Walk) (es : List Event) : Walk := { w with events := w.events ++ es }

/-- One more node failed. -/
def fail (w : Walk) (e : Event) : Walk :=
  { manifest := { w.manifest with nodesFailed := w.manifest.nodesFailed + 1 }
    events := w.events ++ [e] }

end Walk

mutual

/-- Add a node and everything below it. -/
def listNode (s : Source) (disk : Disk) (path : AssetPath) (w : Walk) : Walk :=
  match h : s.list disk path with
  | (.error e, noticed) => (w.noteAll noticed).fail (.unlistableNode path e)
  | (.ok [], noticed) => (w.noteAll noticed).push path (s.kind disk path)
  | (.ok (name :: names), noticed) =>
    have hd : path.depth < s.depthLimit :=
      Source.depth_lt_of_list (by rw [h])
    listChildren s disk path hd (name :: names) ((w.noteAll noticed).push path (some .directory))
termination_by (s.depthLimit - path.depth, 1, 0)

/-- Add nodes with one parent, in order. -/
def listChildren (s : Source) (disk : Disk) (parent : AssetPath)
    (hd : parent.depth < s.depthLimit) (names : List String) (w : Walk) : Walk :=
  match names with
  | [] => w
  | name :: names =>
    let w :=
      match Name.ofString name with
      | .ok n => listNode s disk ⟨parent.names ++ [n]⟩ w
      | .error e => w.fail (.invalidName parent name e)
    listChildren s disk parent hd names w
termination_by (s.depthLimit - parent.depth, 0, names.length)
decreasing_by
  · apply Prod.Lex.left
    simp only [AssetPath.depth, List.length_append, List.length_singleton] at hd ⊢
    omega
  · apply Prod.Lex.right
    apply Prod.Lex.right
    simp

end

/-- List everything below a starting node. -/
def ofSource (s : Source) (disk : Disk) (root : AssetPath) :
    Except ExtractError Manifest × List Event :=
  match h : s.list disk root with
  | (.error e, noticed) => (.error (.listFailed root.text e), noticed)
  | (.ok names, noticed) =>
    let w : Walk := ⟨{ root := root }, noticed⟩
    let w :=
      match names, h with
      | [], _ => w
      | name :: names, h =>
        listChildren s disk root (Source.depth_lt_of_list (by rw [h])) (name :: names) w
    (.ok w.manifest, w.events ++ [.listed root w.manifest.totalEntries])

end Manifest

end AssetUnpack
