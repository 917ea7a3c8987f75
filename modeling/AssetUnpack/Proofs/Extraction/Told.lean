import AssetUnpack.Proofs.Extraction.Accounts

/-!
# What watchers are told

Watchers hear of one leaf at a time: that it is next and its number, how many bytes
were copied if it was, and that it is done. That is a `Block`, and what they hear in
a run is one block after the other and then that the run is over (`toldFrom`). No
leaf can leave its block open, for a task comes to one deed, and a deed is either
told of in a whole block or not at all (`Told`).

Whether a leaf was copied is also written among the events, at the end of every
leaf (`Event.ended?`). The run writes the two side by side, so the blocks are what
its own events tell of the leaves, one by one and in the same order.
-/

namespace AssetUnpack

/-- What watchers are told of one leaf. -/
structure Block where
  path : AssetPath
  /-- The bytes that were copied, if the leaf was copied. -/
  copied? : Option Nat

namespace Block

/-- The news of a leaf with a number. -/
def told (b : Block) (number : Nat) : List Progress :=
  .start b.path number :: ((b.copied?.map .bytes).toList ++ [.complete b.path])

end Block

/-- The news of leaves that are numbered in their order. -/
def toldFrom (number : Nat) : List Block → List Progress
  | [] => []
  | b :: blocks => b.told number ++ toldFrom (number + 1) blocks

theorem toldFrom_append (number : Nat) (bs cs : List Block) :
    toldFrom number (bs ++ cs) = toldFrom number bs ++ toldFrom (number + bs.length) cs := by
  induction bs generalizing number with
  | nil => rfl
  | cons b bs ih =>
      have hnext : number + (b :: bs).length = number + 1 + bs.length := by
        rw [List.length_cons]
        omega
      rw [List.cons_append, toldFrom, toldFrom, ih, hnext, List.append_assoc]

-- An empty file that was copied is told of with its zero bytes.
example : toldFrom 1 [⟨.root, none⟩, ⟨.root, some 0⟩] =
    [.start .root 1, .complete .root, .start .root 2, .bytes 0, .complete .root] := rfl

/-- The leaf that an event closes, and how. -/
def Event.ended? : Event → Option Block
  | .copied path _ bytes => some ⟨path, some bytes⟩
  | .alreadyExists path _ | .failedToWrite path _ _ | .failedToOpen path _
  | .unreadableLeaf path _ => some ⟨path, none⟩
  | _ => none

namespace Extraction

/-! ## A task -/

namespace Deed

/-- What watchers are told of a deed. -/
def block? : Deed → Option Block
  | copied path _ bytes => some ⟨path, some bytes⟩
  | present path _ | unwritten path _ _ | unopened path _ | unreadable path _ =>
    some ⟨path, none⟩
  | _ => none

theorem emitted_ended (deed : Deed) : deed.emitted.filterMap Event.ended? = deed.block?.toList := by
  cases deed <;> rfl

/-- The bytes of the blocks are those that are booked, and a block with bytes is one
more file. -/
theorem book_copied (report : Report) (deed : Deed) :
    (deed.book report).filesCopied =
        report.filesCopied + (deed.block?.toList.filterMap Block.copied?).length ∧
      (deed.book report).bytesWritten =
        report.bytesWritten + (deed.block?.toList.filterMap Block.copied?).sum := by
  cases deed <;> simp [book, warning?, block?, Report.fail]

end Deed

/-- A run that told its watchers of the leaf of a deed, if it has one, and of nothing
else. -/
structure Told (deed : Deed) (r r' : Run) : Prop where
  progress : r'.progress = r.progress ++ toldFrom (r.leavesSeen + 1) deed.block?.toList
  leavesSeen : r'.leavesSeen = r.leavesSeen + deed.block?.toList.length

section Tasks

variable {s : LiveSource} {config : ExtractConfig} {path : AssetPath} {dest : HostPath}
  {r r' : Run} {deed : Deed}

theorem told_of_none (hdeed : deed.block? = none) (hprogress : r'.progress = r.progress)
    (hseen : r'.leavesSeen = r.leavesSeen) : Told deed r r' := by
  refine ⟨?_, ?_⟩
  · rw [hdeed, hprogress]
    exact (List.append_nil _).symm
  · rw [hdeed, hseen]
    rfl

theorem ensureDirectory_told (dest : HostPath) (r : Run) :
    Told (directoryDeed dest r) r (ensureDirectory dest r) := by
  unfold directoryDeed ensureDirectory
  split
  · exact told_of_none rfl rfl rfl
  · obtain ⟨result, disk⟩ := r.disk.makeDirectories dest
    cases result with
    | none => exact told_of_none rfl rfl rfl
    | some e => exact told_of_none rfl rfl rfl

theorem copyLeaf_leavesSeen (s : LiveSource) (config : ExtractConfig) (path : AssetPath)
    (dest : HostPath) (r : Run) : (copyLeaf s config path dest r).2.leavesSeen = r.leavesSeen := by
  have hcopy := copyLeaf_copying s config path dest r
  generalize copyLeaf s config path dest r = out at hcopy ⊢
  cases hcopy with
  | present | unopened | uncreated | written => rfl

/-- A leaf that was begun and is now complete has one block, with the bytes that were
told of in between. -/
theorem told_of_leaf (copied? : Option Nat) (hdeed : deed.block? = some ⟨path, copied?⟩)
    (hprogress : r'.progress =
      (beginLeaf path r).progress ++ (copied?.map Progress.bytes).toList)
    (hseen : r'.leavesSeen = r.leavesSeen + 1) : Told deed r (r'.tell (.complete path)) := by
  refine ⟨?_, ?_⟩
  · rw [hdeed]
    show r'.progress ++ [.complete path] = _
    rw [hprogress]
    simp [beginLeaf, Run.tell, toldFrom, Block.told]
  · rw [hdeed]
    exact hseen

theorem extractLeaf_told (hk : s.kind r path ≠ some .directory) :
    Told (leafDeed path dest (s.kind r path) (copyLeaf s config path dest (beginLeaf path r)).1) r
      (extractLeaf s config path dest r) := by
  obtain ⟨-, -, hprogress⟩ := copyLeaf_records s config path dest (beginLeaf path r)
  have hseen : (copyLeaf s config path dest (beginLeaf path r)).2.leavesSeen = r.leavesSeen + 1 :=
    copyLeaf_leavesSeen s config path dest (beginLeaf path r)
  unfold extractLeaf
  split
  · next hdir => exact absurd hdir hk
  generalize copyLeaf s config path dest (beginLeaf path r) = out at hprogress hseen ⊢
  obtain ⟨result, r'⟩ := out
  have hnone : r'.progress = (beginLeaf path r).progress ++ [] := by
    rw [List.append_nil]
    exact hprogress
  cases result with
  | ok outcome =>
      cases outcome with
      | copied bytes =>
          refine told_of_leaf (some bytes) rfl ?_ hseen
          exact congrArg (· ++ [Progress.bytes bytes]) hprogress
      | alreadyExists => exact told_of_leaf none rfl hnone hseen
      | writeFailed e => exact told_of_leaf none rfl hnone hseen
  | error e =>
      cases s.kind r path with
      | none => exact told_of_leaf none rfl hnone hseen
      | some kind => exact told_of_leaf none rfl hnone hseen

/-- Whatever a task comes to, it is told of in one whole block or not at all. -/
theorem Task.perform_told (s : LiveSource) (config : ExtractConfig) (base : HostPath) (t : Task)
    (r : Run) : Told (t.deed s config base r) r (t.perform s config base r) := by
  cases t with
  | noticed | unlistable | invalidName => exact told_of_none rfl rfl rfl
  | directory place => exact ensureDirectory_told _ r
  | leaf path place =>
      rw [Task.deed, Task.perform]
      split
      · next hdir =>
          unfold extractLeaf
          rw [hdir]
          cases config.emptyDirectories with
          | skip => exact told_of_none rfl rfl rfl
          | create => exact ensureDirectory_told _ r
      · next hdir => exact extractLeaf_told hdir

end Tasks

/-! ## A run -/

/-- A run whose events are those that were heard and others, and that told its
watchers of exactly the leaves that these others close. -/
structure Watched (heard own : List Event) (r : Run) : Prop where
  events : r.events.Perm (heard ++ own)
  inOrder : own.Sublist r.events
  progress : r.progress = toldFrom 1 (own.filterMap Event.ended?)
  leavesSeen : r.leavesSeen = (own.filterMap Event.ended?).length
  filesCopied :
    r.report.filesCopied = ((own.filterMap Event.ended?).filterMap Block.copied?).length
  bytesWritten :
    r.report.bytesWritten = ((own.filterMap Event.ended?).filterMap Block.copied?).sum

section Run

variable {s : LiveSource} {config : ExtractConfig} {base : HostPath} {heard own : List Event}
  {r : Run}

theorem Watched.perform (h : Watched heard own r) (t : Task) :
    Watched (heard ++ t.heard) (own ++ (t.deed s config base r).emitted)
      (t.perform s config base r) := by
  have hrecorded := t.perform_recorded s config base r
  have htold := t.perform_told s config base r
  have hevents := hrecorded.events
  rw [t.deed_heard] at hevents
  obtain ⟨hfiles, hbytes⟩ := (t.deed s config base r).book_copied r.report
  refine ⟨?_, ?_, ?_, ?_, ?_, ?_⟩
  · rw [hevents, List.append_assoc]
    refine (h.events.append_right _).trans ?_
    rw [List.append_assoc]
    refine List.Perm.append_left heard ?_
    rw [← List.append_assoc, ← List.append_assoc]
    exact List.perm_append_comm.append_right _
  · rw [hevents]
    exact h.inOrder.append (List.sublist_append_right _ _)
  · rw [htold.progress, h.progress, h.leavesSeen, List.filterMap_append, Deed.emitted_ended,
      toldFrom_append, Nat.add_comm 1]
  · rw [htold.leavesSeen, h.leavesSeen, List.filterMap_append, Deed.emitted_ended,
      List.length_append]
  · rw [hrecorded.report, hfiles, h.filesCopied, List.filterMap_append, Deed.emitted_ended,
      List.filterMap_append, List.length_append]
  · rw [hrecorded.report, hbytes, h.bytesWritten, List.filterMap_append, Deed.emitted_ended,
      List.filterMap_append, List.sum_append]

theorem Watched.performAll (h : Watched heard own r) (tasks : List Task) :
    ∃ own, Watched (heard ++ tasks.flatMap Task.heard) own (performAll s config base tasks r) := by
  induction tasks generalizing heard own r with
  | nil =>
      refine ⟨own, ?_⟩
      rw [List.flatMap_nil, List.append_nil]
      exact h
  | cons t tasks ih =>
      rw [List.flatMap_cons, ← List.append_assoc]
      exact ih (h.perform t)

/-- An event that closes no leaf can be noted at any time. -/
theorem Watched.note (h : Watched heard own r) {e : Event} (he : e.ended? = none) :
    Watched heard (own ++ [e]) (r.note e) := by
  have hsame : (own ++ [e]).filterMap Event.ended? = own.filterMap Event.ended? := by
    rw [List.filterMap_append, List.filterMap_cons_none he, List.filterMap_nil, List.append_nil]
  refine ⟨?_, h.inOrder.append_right [e], ?_, ?_, ?_, ?_⟩
  · rw [← List.append_assoc]
    exact h.events.append_right [e]
  · rw [hsame]
    exact h.progress
  · rw [hsame]
    exact h.leavesSeen
  · rw [hsame]
    exact h.filesCopied
  · rw [hsame]
    exact h.bytesWritten

theorem Watched.closed (h : Watched heard own r) :
    Watched heard (own ++ [closing r.report]) (r.note (closing r.report)) := h.note rfl

theorem watched_opening (config : ExtractConfig) (dest : Destination) (disk : Disk)
    (events : List Event) : ∃ own, Watched events own (opening config dest disk events) := by
  have hheard : Watched events [] (({ disk := disk } : Run).noteAll events) := by
    refine ⟨?_, List.nil_sublist _, rfl, rfl, rfl, rfl⟩
    rw [List.append_nil]
    exact List.Perm.refl _
  exact ⟨_, hheard.note rfl⟩

theorem watched_planRun_nil (h : Watched heard own r) :
    ∃ own, Watched heard own (performAll s config base (planRun s config base [] r) r) := by
  have hnothing : Watched heard _ (r.note (.nothingToExtract config.sourceRoot)) := h.note rfl
  rw [planRun]
  cases config.sourceRoot.fileName? with
  | none => exact ⟨_, hnothing⟩
  | some name =>
      dsimp only
      split
      · exact ⟨_, hnothing⟩
      · let leaf : Task := .leaf config.sourceRoot ⟨[name]⟩
        have hleaf : Watched (heard ++ leaf.heard) _ (leaf.perform s config base r) :=
          h.perform leaf
        exact ⟨_, (List.append_nil heard) ▸ hleaf⟩

end Run

/-- A run that starts tells its watchers of one leaf after the other, from number one
on, each in a block of its own, and then that it is over. The blocks are the leaves
that its own events close, in their order, with the bytes of those that were copied.
A run that does not start tells nothing. -/
theorem runLive_tells (s : LiveSource) (config : ExtractConfig) (dest : Destination)
    (disk : Disk) :
    match (runLive s config dest disk).result with
    | .error _ => (runLive s config dest disk).progress = []
    | .ok report => ∃ own blocks,
      (runLive s config dest disk).events.Perm (sourceEvents s config dest disk ++ own) ∧
        own.Sublist (runLive s config dest disk).events ∧
        own.filterMap Event.ended? = blocks ∧
        (runLive s config dest disk).progress = toldFrom 1 blocks ++ [.done] ∧
        (blocks.filterMap Block.copied?).length = report.filesCopied ∧
        (blocks.filterMap Block.copied?).sum = report.bytesWritten := by
  match hlist : s.list { disk := disk } config.sourceRoot with
  | (.error e, events) =>
      rw [runLive_of_error hlist]
      rfl
  | (.ok names, events) =>
      rw [runLive_of_list hlist]
      obtain ⟨begun, hopening⟩ := watched_opening config dest disk events
      have hrun : ∃ own, Watched (sourceEvents s config dest disk) own
          (performAll s config dest.path
            (planRun s config dest.path names (opening config dest disk events))
            (opening config dest disk events)) := by
        unfold sourceEvents
        rw [hlist]
        cases names with
        | nil => exact watched_planRun_nil hopening
        | cons name names => exact hopening.performAll _
      obtain ⟨own, hwatched⟩ := hrun
      have hclosed := hwatched.closed
      refine ⟨_, _, hclosed.events, hclosed.inOrder, rfl, ?_, hclosed.filesCopied.symm,
        hclosed.bytesWritten.symm⟩
      exact congrArg (· ++ [Progress.done]) hclosed.progress

end Extraction

end AssetUnpack
