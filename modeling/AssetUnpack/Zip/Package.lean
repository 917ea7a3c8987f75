import AssetUnpack.Source.Memory
import AssetUnpack.Zip.Entry

/-!
# Zip packages as sources

A package is opened by indexing its directory: every usable entry below the scope becomes a node,
and a file node keeps where its data is. Data is read only when an asset is opened, from whatever
bytes the package has by then, and through the one cursor of the package, so no more than one asset
can be read at a time.
-/

namespace AssetUnpack.Zip

/-- An opened package: the index of its entries. -/
structure Package where
  tree : NodeTree Span

/-! ## Indexing -/

/-- Add an entry to the index, under its path below the scope; entries elsewhere are passed over. -/
def addEntry (tree : NodeTree Span) (scope : AssetPath) (name : String) (span : Span) :
    Except InvalidPath (NodeTree Span) := do
  let full ← AssetPath.parse name
  match full.stripBase? scope with
  | none => return tree
  | some path =>
    if isDirectoryName name then tree.ensureDirectory path
    else if path.isRoot then throw ⟨name, .shadowsRoot⟩
    else tree.insertLeaf path span

/-- How far the indexing of a package has come. -/
structure Indexing where
  tree : NodeTree Span
  events : List Event

/-- Note an event. -/
def Indexing.note (i : Indexing) (e : Event) : Indexing := { i with events := i.events ++ [e] }

/-- Index an entry whose data has been found. -/
def indexEntry (scope : AssetPath) (i : Indexing) (r : Record) (start : Nat) : Indexing :=
  if r.encrypted then i.note (.encryptedEntry r.name)
  else
    let span : Span := ⟨start, r.compressedSize, r.size, r.crc32, r.methodCode⟩
    match addEntry i.tree scope r.name span with
    | .ok tree => { i with tree }
    | .error e => i.note (.unusableZipEntry r.name e)

/-- Index entries from a number on, until the data of one cannot be found; what was noted up to
there comes along. -/
def indexEntries (bytes : Bytes) (scope : AssetPath) :
    Nat → Indexing → List Record → Except ArchiveFault Indexing × List Event
  | _, i, [] => (.ok i, i.events)
  | number, i, r :: rest =>
    match dataStart? bytes r with
    | none => (.error (.zipEntry number "invalid local file header"), i.events)
    | some start => indexEntries bytes scope (number + 1) (indexEntry scope i r start) rest

/-- Open a package; its index holds what lies below the scope. -/
def Package.open (bytes : Bytes) (scope : AssetPath) :
    Except ExtractError Package × List Event :=
  match directory? bytes with
  | none => (.error (.invalidArchive (.zipDirectory "no readable directory")), [])
  | some records =>
    match indexEntries bytes scope 0 ⟨.empty, []⟩ records with
    | (.error e, events) => (.error (.invalidArchive e), events)
    | (.ok i, events) =>
      (.ok ⟨i.tree⟩, events ++ [.indexedZip records.length i.tree.size scope])

/-! ## Opening assets -/

/-- An entry is being read already. -/
def busyError : IoError := .said .other "another package entry is still open"

/-- Nobody here can unpack the entry at a path. -/
def unsupportedError (path : AssetPath) (code : Nat) : IoError :=
  .said .unsupported
    ("asset '" ++ path.text ++ "' uses unsupported compression Unsupported("
      ++ toString code ++ ")")

/-- The entry that opening a path leads to, and how to unpack it. -/
def Package.find (p : Package) (busy : Bool) (path : AssetPath) :
    Except IoError (Span × Packing) :=
  match p.tree.leafAt path with
  | .error e => .error e
  | .ok span =>
    if busy then .error busyError
    else
      match Packing.ofCode? span.methodCode with
      | some packing => .ok (span, packing)
      | none => .error (unsupportedError path span.methodCode)

end AssetUnpack.Zip

namespace AssetUnpack.Source

/-- The source of an opened package; `bytes` are those that it has when they are read. -/
def ofZip (p : Zip.Package) (bytes : Disk → Bytes) : Source where
  list _ path := (.ok ((p.tree.children path).map (·.text)), [])
  kind _ path := p.tree.kind? path
  openAsset _ busy path :=
    match p.find busy path with
    | .error e => .error e
    | .ok (span, packing) => .ok fun d => span.supplies packing (bytes d)
  depthLimit := p.tree.depthLimit
  list_deep _ path h names hn := by
    have : (p.tree.children path).map (·.text) = names := Except.ok.inj hn
    rw [← this, p.tree.children_deep h]
    rfl

/-- Open the package that a byte string holds now; `bytes` gives those that it has later, and
`scope` is the text of the path that becomes the root. -/
def openZip (now : Bytes) (bytes : Disk → Bytes) (scope : String) :
    Except ExtractError Source × List Event :=
  match AssetPath.parse scope with
  | .error e => (.error (.invalidPath e), [])
  | .ok scope =>
    match Zip.Package.open now scope with
    | (.error e, events) => (.error e, events)
    | (.ok p, events) => (.ok (.ofZip p bytes), events)

end AssetUnpack.Source
