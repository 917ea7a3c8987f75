import AssetUnpack.Proofs.Extraction.Calls
import AssetUnpack.Proofs.Report

/-!
# What a task comes to

A run keeps three records: its report, its events, and what its watchers were
told. The walk writes them in a dozen places. Here every task comes to one
`Deed`, and what it adds to the records is read off the deed alone: `emitted`,
`book` and `started?` are three functions of it, and `perform_recorded` says
that nothing else is written.

So whatever relates the records to each other is a matter of deeds. Nothing in
this module looks at the disk, except to see which deed it is.
-/

namespace AssetUnpack

/-- The leaf that watchers are told is next. -/
def Progress.started? : Progress → Option AssetPath
  | .start path _ => some path
  | _ => none

namespace Extraction

/-- The leaves that were begun, in order. -/
def begun (progress : List Progress) : List AssetPath := progress.filterMap Progress.started?

/-- What a task came to. -/
inductive Deed
  | noticed (events : List Event)
  | unlistable (path : AssetPath) (e : IoError)
  | invalidName (parent : AssetPath) (name : String) (e : InvalidPath)
  /-- A directory is there already. -/
  | standing
  | created (dest : HostPath)
  | uncreated (dest : HostPath) (e : IoError)
  | emptySkipped (path : AssetPath)
  | copied (path : AssetPath) (dest : HostPath) (bytes : Nat)
  | present (path : AssetPath) (dest : HostPath)
  | unwritten (path : AssetPath) (dest : HostPath) (e : IoError)
  | unopened (path : AssetPath) (e : IoError)
  /-- A leaf cannot be opened, and its source cannot tell what it is. -/
  | unreadable (path : AssetPath) (e : IoError)

namespace Deed

/-- The events of the source. -/
def heard : Deed → List Event
  | noticed events => events
  | _ => []

/-- The events of the run itself. -/
def emitted : Deed → List Event
  | noticed _ | standing => []
  | unlistable path e => [.failedToList path e]
  | invalidName parent name e => [.invalidName parent name e]
  | created dest => [.createdDirectory dest.text]
  | uncreated dest e => [.failedToCreate dest.text e]
  | emptySkipped path => [.emptyDirectorySkipped path]
  | copied path dest bytes => [.copied path dest.text bytes]
  | present path dest => [.alreadyExists path dest.text]
  | unwritten path dest e => [.failedToWrite path dest.text e]
  | unopened path e => [.failedToOpen path e]
  | unreadable path e => [.unreadableLeaf path e]

/-- The leaf that was begun. -/
def started? : Deed → Option AssetPath
  | copied path _ _ | present path _ | unwritten path _ _ | unopened path _ | unreadable path _ =>
    some path
  | _ => none

def warning? : Deed → Option Warning
  | unlistable path e => some (.failedToList path e)
  | invalidName parent name _ => some (.invalidName parent name)
  | uncreated dest e => some (.failedToCreate dest.text e)
  | unwritten _ dest e => some (.failedToWrite dest.text e)
  | unopened path e => some (.failedToOpen path e)
  | _ => none

/-- The report with a deed counted in. -/
def book (report : Report) (deed : Deed) : Report :=
  match deed.warning?, deed with
  | some w, _ => report.fail w
  | none, created _ => { report with directoriesCreated := report.directoriesCreated + 1 }
  | none, copied _ _ bytes =>
    { report with
      filesCopied := report.filesCopied + 1
      bytesWritten := report.bytesWritten + bytes }
  | none, present _ _ => { report with filesSkipped := report.filesSkipped + 1 }
  | none, unreadable _ _ => { report with leavesUnreadable := report.leavesUnreadable + 1 }
  | none, _ => report

theorem book_warnings (report : Report) (deed : Deed) :
    (deed.book report).warnings = report.warnings ++ deed.warning?.toList := by
  cases deed <;> simp [book, warning?, Report.fail]

end Deed

/-- What seeing to a directory comes to. -/
def directoryDeed (dest : HostPath) (r : Run) : Deed :=
  if r.disk.hasDirectory dest then .standing
  else
    match (r.disk.makeDirectories dest).1 with
    | none => .created dest
    | some e => .uncreated dest e

/-- What a leaf comes to, by how its copy ended. -/
def leafDeed (path : AssetPath) (dest : HostPath) (kind : Option NodeKind) :
    Except IoError LeafOutcome → Deed
  | .ok (.copied bytes) => .copied path dest bytes
  | .ok .alreadyExists => .present path dest
  | .ok (.writeFailed e) => .unwritten path dest e
  | .error e =>
    match kind with
    | some _ => .unopened path e
    | none => .unreadable path e

/-- What a task comes to in a run that has come as far as `r`. -/
def Task.deed (s : LiveSource) (config : ExtractConfig) (base : HostPath) (r : Run) : Task → Deed
  | noticed events => .noticed events
  | unlistable path e => .unlistable path e
  | invalidName parent name e => .invalidName parent name e
  | directory place => directoryDeed (base.under place) r
  | leaf path place =>
    if s.kind r path = some .directory then
      match config.emptyDirectories with
      | .skip => .emptySkipped path
      | .create => directoryDeed (base.under place) r
    else
      leafDeed path (base.under place) (s.kind r path)
        (copyLeaf s config path (base.under place) (beginLeaf path r)).1

/-! ## The records -/

/-- A run that got further by a deed, as far as its records go. -/
structure Recorded (deed : Deed) (r r' : Run) : Prop where
  events : r'.events = r.events ++ (deed.heard ++ deed.emitted)
  report : r'.report = deed.book r.report
  leaves : begun r'.progress = begun r.progress ++ deed.started?.toList

theorem begun_append (ps qs : List Progress) : begun (ps ++ qs) = begun ps ++ begun qs :=
  List.filterMap_append

section Records

variable {s : LiveSource} {config : ExtractConfig} {path : AssetPath} {dest : HostPath} {r r' : Run}

theorem recorded_refl (r : Run) : Recorded .standing r r :=
  ⟨by simp [Deed.heard, Deed.emitted], rfl, by simp [Deed.started?]⟩

theorem ensureDirectory_recorded (dest : HostPath) (r : Run) :
    Recorded (directoryDeed dest r) r (ensureDirectory dest r) := by
  unfold directoryDeed ensureDirectory
  split
  · exact recorded_refl r
  · obtain ⟨result, disk⟩ := r.disk.makeDirectories dest
    cases result with
    | none => exact ⟨rfl, rfl, (List.append_nil _).symm⟩
    | some e => exact ⟨rfl, rfl, (List.append_nil _).symm⟩

/-- What the end of a leaf adds to the records, which so far only say that the leaf
was begun. -/
theorem record_recorded (kind : Option NodeKind) (outcome : LeafOutcome)
    (hevents : r'.events = r.events) (hreport : r'.report = r.report)
    (hbegun : begun r'.progress = begun r.progress ++ [path]) :
    Recorded (leafDeed path dest kind (.ok outcome)) r (record path dest r' outcome) := by
  obtain ⟨disk, report, events, progress, leavesSeen, calls⟩ := r'
  obtain rfl : report = r.report := hreport
  obtain rfl : events = r.events := hevents
  cases outcome with
  | copied bytes =>
      refine ⟨rfl, rfl, ?_⟩
      show begun (progress ++ [.bytes bytes]) = _
      rw [begun_append]
      exact (List.append_nil _).trans hbegun
  | alreadyExists => exact ⟨rfl, rfl, hbegun⟩
  | writeFailed e => exact ⟨rfl, rfl, hbegun⟩

theorem Recorded.complete {deed : Deed} (h : Recorded deed r r') (path : AssetPath) :
    Recorded deed r (r'.tell (.complete path)) := by
  refine ⟨h.events, h.report, ?_⟩
  show begun (r'.progress ++ _) = _
  rw [begun_append, h.leaves]
  exact List.append_nil _

/-- A copy by itself writes no records. -/
theorem copyLeaf_records (s : LiveSource) (config : ExtractConfig) (path : AssetPath)
    (dest : HostPath) (r : Run) :
    (copyLeaf s config path dest r).2.events = r.events ∧
      (copyLeaf s config path dest r).2.report = r.report ∧
      (copyLeaf s config path dest r).2.progress = r.progress := by
  have hcopy := copyLeaf_copying s config path dest r
  generalize copyLeaf s config path dest r = out at hcopy ⊢
  cases hcopy with
  | present | unopened | uncreated | written => exact ⟨rfl, rfl, rfl⟩

theorem extractLeaf_recorded (hk : s.kind r path ≠ some .directory) :
    Recorded
      (leafDeed path dest (s.kind r path) (copyLeaf s config path dest (beginLeaf path r)).1) r
      (extractLeaf s config path dest r) := by
  obtain ⟨hevents, hreport, hprogress⟩ := copyLeaf_records s config path dest (beginLeaf path r)
  have hbegun : begun (copyLeaf s config path dest (beginLeaf path r)).2.progress =
      begun r.progress ++ [path] := by
    rw [hprogress]
    exact begun_append r.progress _
  unfold extractLeaf
  split
  · next hdir => exact absurd hdir hk
  generalize copyLeaf s config path dest (beginLeaf path r) = out at hevents hreport hbegun ⊢
  obtain ⟨result, r'⟩ := out
  cases result with
  | ok outcome =>
      have h : Recorded (leafDeed path dest (s.kind r path) (.ok outcome)) r
          (record path dest r' outcome) :=
        record_recorded (s.kind r path) outcome hevents hreport hbegun
      exact h.complete path
  | error e =>
      obtain ⟨disk, report, events, progress, leavesSeen, calls⟩ := r'
      obtain rfl : report = r.report := hreport
      obtain rfl : events = r.events := hevents
      cases s.kind r path with
      | none => exact Recorded.complete ⟨rfl, rfl, hbegun⟩ path
      | some kind => exact Recorded.complete ⟨rfl, rfl, hbegun⟩ path

/-- A task writes what its deed says, and nothing else. -/
theorem Task.perform_recorded (s : LiveSource) (config : ExtractConfig) (base : HostPath)
    (t : Task) (r : Run) :
    Recorded (t.deed s config base r) r (t.perform s config base r) := by
  cases t with
  | noticed events => exact ⟨congrArg _ (List.append_nil _).symm, rfl, (List.append_nil _).symm⟩
  | unlistable | invalidName => exact ⟨rfl, rfl, (List.append_nil _).symm⟩
  | directory place => exact ensureDirectory_recorded _ r
  | leaf path place =>
      rw [Task.deed, Task.perform]
      split
      · next hdir =>
          unfold extractLeaf
          rw [hdir]
          cases config.emptyDirectories with
          | skip => exact ⟨rfl, rfl, (List.append_nil _).symm⟩
          | create => exact ensureDirectory_recorded _ r
      · next hdir => exact extractLeaf_recorded hdir

end Records

end Extraction

end AssetUnpack
