import AssetUnpack.Destination
import AssetUnpack.Report
import AssetUnpack.Source

/-!
# Extraction

An extraction walks a source from a starting node and lays every node out below a destination: the
starting node is the destination itself, and a node below it goes to the same names below the
destination. A starting node without children that is a file goes into the destination under its
own name.

Only a starting node that cannot be listed, or a destination that cannot be resolved, keeps an
extraction from running. Every other failure stays at its node: it is counted, noted as an event and
kept as a warning, and the walk goes on with the next name.

Nothing obliges a source to answer the same question twice in the same way, so the walk is written
for a `LiveSource`, whose answers may depend on everything that has happened in the run; a `Source`
is one that looks at the disk alone. A run remembers what it asked of the disk.

The walk ends because every step down makes the path one name longer, and no path at the source's
depth limit has names below it.
-/

namespace AssetUnpack

/-- What becomes of a directory of the source that is empty. -/
inductive EmptyDirectories
  | skip | create
  deriving DecidableEq

/-- What an extraction is asked to do. -/
structure ExtractConfig where
  /-- Replace files that are already there. -/
  force : Bool := false
  emptyDirectories : EmptyDirectories := .skip
  /-- The node where the walk starts. -/
  sourceRoot : AssetPath := .root

namespace Extraction

/-- What a run asks of the disk. -/
inductive DiskCall
  /-- To create a file, or to empty it if it is there. -/
  | createFile (path : HostPath)
  /-- To make a directory and all that is missing above it. -/
  | makeDirectories (path : HostPath)
  /-- To keep bytes in the file at a place. -/
  | write (place : Place) (bytes : Bytes)

/-- How far an extraction has come. -/
structure Run where
  disk : Disk
  report : Report := {}
  /-- What happened, oldest first. -/
  events : List Event := []
  /-- What watchers were told, oldest first. -/
  progress : List Progress := []
  leavesSeen : Nat := 0
  /-- What was asked of the disk, oldest first. -/
  calls : List DiskCall := []

namespace Run

/-- Note an event. -/
def note (r : Run) (e : Event) : Run := { r with events := r.events ++ [e] }

/-- Note what a source noticed. -/
def noteAll (r : Run) (es : List Event) : Run := { r with events := r.events ++ es }

/-- Tell the watchers. -/
def tell (r : Run) (p : Progress) : Run := { r with progress := r.progress ++ [p] }

/-- Note a failure of a node. -/
def fail (r : Run) (e : Event) (w : Warning) : Run :=
  { r with events := r.events ++ [e], report := r.report.fail w }

/-- Ask something of the disk, which is `disk` then. -/
def call (r : Run) (c : DiskCall) (disk : Disk) : Run :=
  { r with calls := r.calls ++ [c], disk := disk }

end Run

/-- A source as a run meets it. An answer may depend on all that has happened so far, so the same
question may be answered differently each time. -/
structure LiveSource where
  list : Run → AssetPath → Except IoError (List String) × List Event
  kind : Run → AssetPath → Option NodeKind
  openAsset : Run → AssetPath → Except IoError Content
  /-- No path this deep has names below it. -/
  depthLimit : Nat
  list_deep : ∀ r path, depthLimit ≤ path.depth →
    ∀ names, (list r path).1 = .ok names → names = []

namespace LiveSource

/-- A source whose answers depend on the disk alone. One asset is read at a time. -/
def ofSource (s : Source) : LiveSource where
  list r path := s.list r.disk path
  kind r path := s.kind r.disk path
  openAsset r path := s.openAsset r.disk false path
  depthLimit := s.depthLimit
  list_deep r path h names hn := s.list_deep r.disk path h names hn

/-- A path that has names below it lies above the depth limit. -/
theorem depth_lt_of_list {s : LiveSource} {r : Run} {path : AssetPath} {name : String}
    {names : List String} (h : (s.list r path).1 = .ok (name :: names)) :
    path.depth < s.depthLimit := by
  by_cases hd : s.depthLimit ≤ path.depth
  · exact absurd (s.list_deep r path hd _ h) (by simp)
  · omega

end LiveSource

/-- How the copy of a leaf ended that could be opened, or did not have to be. -/
inductive LeafOutcome
  | copied (bytes : Nat)
  | alreadyExists
  | writeFailed (e : IoError)

/-- Copy one leaf. The source is opened before anything is created, so a leaf that cannot be opened
leaves the disk as it was. -/
def copyLeaf (s : LiveSource) (config : ExtractConfig) (path : AssetPath) (dest : HostPath)
    (r : Run) : Except IoError LeafOutcome × Run :=
  if !config.force && r.disk.hasEntry dest then (.ok .alreadyExists, r)
  else
    match s.openAsset r path with
    | .error e => (.error e, r)
    | .ok content =>
      match r.disk.createFile dest with
      | .error e => (.ok (.writeFailed e), r.call (.createFile dest) r.disk)
      | .ok (place, disk) =>
        let r := r.call (.createFile dest) disk
        let out := Copy.run (disk.writerAt place) () (content disk)
        let r := r.call (.write place out.sent.written) (disk.setContent place out.sent.written)
        match out.result with
        | .ok bytes => (.ok (.copied bytes), r)
        | .error e => (.ok (.writeFailed e), r)

/-- Count and note how a leaf ended. -/
def record (path : AssetPath) (dest : HostPath) (r : Run) : LeafOutcome → Run
  | .copied bytes =>
    let r := r.note (.copied path dest.text bytes)
    let report := { r.report with
      filesCopied := r.report.filesCopied + 1
      bytesWritten := r.report.bytesWritten + bytes }
    { r with report := report }.tell (.bytes bytes)
  | .alreadyExists =>
    let r := r.note (.alreadyExists path dest.text)
    { r with report := { r.report with filesSkipped := r.report.filesSkipped + 1 } }
  | .writeFailed e =>
    r.fail (.failedToWrite path dest.text e) (.failedToWrite dest.text e)

/-- Make a directory unless it is there. If it cannot be made, what lies below it fails by
itself. -/
def ensureDirectory (dest : HostPath) (r : Run) : Run :=
  if r.disk.hasDirectory dest then r
  else
    match r.disk.makeDirectories dest with
    | (none, disk) =>
      let r := (r.call (.makeDirectories dest) disk).note (.createdDirectory dest.text)
      let made := r.report.directoriesCreated + 1
      { r with report := { r.report with directoriesCreated := made } }
    | (some e, disk) =>
      (r.call (.makeDirectories dest) disk).fail (.failedToCreate dest.text e)
        (.failedToCreate dest.text e)

/-- Tell the watchers that a leaf is next. -/
def beginLeaf (path : AssetPath) (r : Run) : Run :=
  { r with leavesSeen := r.leavesSeen + 1 }.tell (.start path (r.leavesSeen + 1))

/-- Lay out a node without children. Where the source cannot tell files from empty directories,
a leaf that cannot be opened is taken to be an empty directory. -/
def extractLeaf (s : LiveSource) (config : ExtractConfig) (path : AssetPath) (dest : HostPath)
    (r : Run) : Run :=
  match s.kind r path with
  | some .directory =>
    match config.emptyDirectories with
    | .skip => r.note (.emptyDirectorySkipped path)
    | .create => ensureDirectory dest r
  | kind =>
    let r :=
      match copyLeaf s config path dest (beginLeaf path r) with
      | (.ok outcome, r) => record path dest r outcome
      | (.error e, r) =>
        match kind with
        | some _ => r.fail (.failedToOpen path e) (.failedToOpen path e)
        | none =>
          let r := r.note (.unreadableLeaf path e)
          let unreadable := r.report.leavesUnreadable + 1
          { r with report := { r.report with leavesUnreadable := unreadable } }
    r.tell (.complete path)

mutual

/-- Lay out a node and everything below it at `dest`. -/
def extractNode (s : LiveSource) (config : ExtractConfig) (path : AssetPath) (dest : HostPath)
    (r : Run) : Run :=
  match h : s.list r path with
  | (.error e, noticed) =>
    (r.noteAll noticed).fail (.failedToList path e) (.failedToList path e)
  | (.ok [], noticed) => extractLeaf s config path dest (r.noteAll noticed)
  | (.ok (name :: names), noticed) =>
    have hd : path.depth < s.depthLimit :=
      LiveSource.depth_lt_of_list (by rw [h])
    extractChildren s config path hd dest (name :: names)
      (ensureDirectory dest (r.noteAll noticed))
termination_by (s.depthLimit - path.depth, 1, 0)

/-- Lay out nodes with one parent, in order; a name that is none is a failure of its own. -/
def extractChildren (s : LiveSource) (config : ExtractConfig) (parent : AssetPath)
    (hd : parent.depth < s.depthLimit) (dest : HostPath) (names : List String) (r : Run) : Run :=
  match names with
  | [] => r
  | name :: names =>
    let r :=
      match Name.ofString name with
      | .ok n => extractNode s config ⟨parent.names ++ [n]⟩ (dest.push n) r
      | .error e => r.fail (.invalidName parent name e) (.invalidName parent name)
    extractChildren s config parent hd dest names r
termination_by (s.depthLimit - parent.depth, 0, names.length)
decreasing_by
  · apply Prod.Lex.left
    simp only [AssetPath.depth, List.length_append, List.length_singleton] at hd ⊢
    omega
  · apply Prod.Lex.right
    apply Prod.Lex.right
    simp

end

/-- Lay out a starting node without children. -/
def extractRootLeaf (s : LiveSource) (config : ExtractConfig) (dest : HostPath) (r : Run) : Run :=
  match config.sourceRoot.fileName? with
  | none => r.note (.nothingToExtract config.sourceRoot)
  | some name =>
    if s.kind r config.sourceRoot = some .directory then
      r.note (.nothingToExtract config.sourceRoot)
    else extractLeaf s config config.sourceRoot (dest.push name) r

/-- The event that closes an extraction. -/
def closing (report : Report) : Event :=
  .finished report.filesCopied report.filesSkipped report.directoriesCreated report.nodesFailed
    report.bytesWritten

/-- How an extraction ended. -/
structure Outcome where
  /-- The report, or why there was no walk. -/
  result : Except ExtractError Report
  disk : Disk
  events : List Event
  progress : List Progress
  /-- What was asked of the disk, oldest first. -/
  calls : List DiskCall

/-- An extraction that did not start. -/
def Outcome.refused (disk : Disk) (events : List Event) (e : ExtractError) : Outcome :=
  ⟨.error e, disk, events, [], []⟩

/-- Extract a source, whose answers may change on the way, into a destination. -/
def runLive (s : LiveSource) (config : ExtractConfig) (dest : Destination) (disk : Disk) :
    Outcome :=
  let root := config.sourceRoot
  let r : Run := { disk := disk }
  match h : s.list r root with
  | (.error e, noticed) => .refused disk noticed (.listFailed root.text e)
  | (.ok names, noticed) =>
    let r := (r.noteAll noticed).note (.started root dest.path.text config.force)
    let r :=
      match names, h with
      | [], _ => extractRootLeaf s config dest.path r
      | name :: names, h =>
        extractChildren s config root (LiveSource.depth_lt_of_list (by rw [h])) dest.path
          (name :: names) r
    let r := (r.tell .done).note (closing r.report)
    ⟨.ok r.report, r.disk, r.events, r.progress, r.calls⟩

/-- Extract a source into a destination. -/
def run (s : Source) (config : ExtractConfig) (dest : Destination) (disk : Disk) : Outcome :=
  runLive (.ofSource s) config dest disk

/-- Extract a source, whose answers may change on the way, into the directory that a platform
offers, if it offers one. -/
def runForPlatform (s : LiveSource) (config : ExtractConfig) (dest : Option HostPath)
    (disk : Disk) : Outcome :=
  match Destination.resolveOptional disk dest with
  | .error e => .refused disk [] e
  | .ok dest => runLive s config dest disk

/-- Extract a source, whose answers may change on the way, into the directory that a platform
offers and report nothing: if there is no walk, one event tells why. -/
def runAndForget (s : LiveSource) (force : Bool) (dest : Option HostPath) (disk : Disk) :
    Disk × List Event :=
  let out := runForPlatform s { force := force } dest disk
  match out.result with
  | .ok _ => (out.disk, out.events)
  | .error e => (out.disk, out.events ++ [.aborted e])

end Extraction

/-- Extract a source into the directory that a path leads to. -/
def extractInto (s : Source) (config : ExtractConfig) (dest : HostPath) (disk : Disk) :
    Extraction.Outcome :=
  match Destination.resolve disk dest with
  | .error e => .refused disk [] e
  | .ok dest => Extraction.run s config dest disk

/-- Extract a source into the directory that a platform offers, if it offers one. -/
def extractForPlatform (s : Source) (config : ExtractConfig) (dest : Option HostPath)
    (disk : Disk) : Extraction.Outcome :=
  Extraction.runForPlatform (.ofSource s) config dest disk

/-- Extract a source into the directory that a platform offers and report nothing. -/
def extractAndForget (s : Source) (force : Bool) (dest : Option HostPath) (disk : Disk) :
    Disk × List Event :=
  Extraction.runAndForget (.ofSource s) force dest disk

end AssetUnpack
