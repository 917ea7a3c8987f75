import AssetUnpack.Proofs.AssetPath
import AssetUnpack.Proofs.NodeTree

/-!
# What entries of an archive come to

Whatever the format of an archive, it is a row of entries with a name, a kind and
perhaps content. What is to become of them can be said without a format: they are
inserted one after the other into a tree in memory, each under its path below a
scope, and an entry without such a path, or one that the tree refuses, is left out
(`treeOf`).
-/

namespace AssetUnpack

/-- Two sources that answer alike, as long as one asset is read at a time. -/
structure Source.Agree (s s' : Source) : Prop where
  list : ∀ disk path, s.list disk path = s'.list disk path
  kind : ∀ disk path, s.kind disk path = s'.kind disk path
  openAsset : ∀ disk path, s.openAsset disk false path = s'.openAsset disk false path

/-- An entry of an archive, as far as any format tells. -/
structure Entry where
  name : String
  kind : NodeKind
  content : Bytes := []

/-- Names as archivers write them: a slash at the end is for directories, and a name
does not begin where the archiver stood. -/
structure Entry.WellNamed (e : Entry) : Prop where
  directory : e.kind = .directory ↔ e.name.toList.getLast? = some '/'
  noCurrent : ¬ ['.', '/'] <+: e.name.toList
  notCurrent : e.name ≠ "."

namespace MemoryTree

/-- Insert an entry at a path. -/
def insertEntry (t : MemoryTree) (path : AssetPath) (e : Entry) : Except InvalidPath MemoryTree :=
  match e.kind with
  | .file => t.insertFile path.text e.content
  | .directory => t.insertDirectory path.text

/-- The tree with an entry in it, if it has a path strictly below the scope and can be
inserted there. -/
def addEntry (scope : AssetPath) (t : MemoryTree) (e : Entry) : MemoryTree :=
  match AssetPath.parse e.name with
  | .error _ => t
  | .ok full =>
    match full.stripBase? scope with
    | none => t
    | some path =>
      if path.isRoot then t else t.settle (t.insertEntry path e)

/-- The tree that entries come to, in their order. -/
def treeOf (scope : AssetPath) (entries : List Entry) : MemoryTree :=
  entries.foldl (addEntry scope) NodeTree.empty

theorem insertFile_text (t : MemoryTree) (p : AssetPath) (content : Bytes) :
    t.insertFile p.text content = t.insertLeaf p content := by
  rw [insertFile, p.parse_text]
  rfl

theorem insertDirectory_text (t : MemoryTree) (p : AssetPath) :
    t.insertDirectory p.text = t.ensureDirectory p := by
  rw [insertDirectory, p.parse_text]
  rfl

theorem Built.insertEntry {t t' : MemoryTree} (h : t.Built) {path : AssetPath} {e : Entry}
    (hok : t.insertEntry path e = .ok t') : t'.Built := by
  unfold MemoryTree.insertEntry at hok
  split at hok
  · exact .file h _ _ hok
  · exact .directory h _ hok

theorem Built.addEntry {t : MemoryTree} (h : t.Built) (scope : AssetPath) (e : Entry) :
    (t.addEntry scope e).Built := by
  unfold MemoryTree.addEntry
  split
  · exact h
  split
  · exact h
  split
  · exact h
  · cases hok : t.insertEntry _ e with
    | error fault => exact h
    | ok t' => exact h.insertEntry hok

theorem treeOf_built (scope : AssetPath) (entries : List Entry) : (treeOf scope entries).Built :=
  List.foldlRecOn entries _ .empty fun _ ht e _ => ht.addEntry scope e

end MemoryTree

end AssetUnpack
