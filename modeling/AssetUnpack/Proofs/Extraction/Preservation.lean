import AssetUnpack.Proofs.Disk.Growth
import AssetUnpack.Proofs.Extraction.Containment
import AssetUnpack.Proofs.Extraction.Onto

/-!
# What was there before stays

Nothing is assumed here of the disk: links may be live, lead nowhere or run in
circles, inside the destination or anywhere else. Three steps of an extraction
look at links in three different ways, the look for what is there, the making of
directories and the creation of a file, and a hostile source may choose the names
that they come by. Still nothing that was there goes away or becomes something
else, and a file gets other bytes in one way only: with force, for a leaf that
the source could open, whose path below the destination leads to that file.

The first half needs no more than that the disk grows with every call. For the
second the run is cut at the task that changed the file (`TurnOf`), because what
a path leads to can change on the way, a directory that the run makes may be what
a link was waiting for. What it led to then it leads to ever after, since the
disk only grows.
-/

namespace AssetUnpack.Extraction

/-! ## One task -/

section Task

variable {s : LiveSource} {config : ExtractConfig} {base : HostPath} {r : Run} {t : Task}
  {place : Place} {number : Nat} {bytes : Bytes}

theorem Asked.extends {force : Bool} {dest : HostPath} {d : Disk} {cs : List DiskCall}
    (h : Asked force dest d cs) : d.Extends (replay d cs) := by
  cases h with
  | nothing => exact Disk.Extends.refl d
  | directory => exact Disk.extends_makeDirectories d dest
  | refused hcreate =>
      simp only [replay, List.foldl_cons, List.foldl_nil, DiskCall.carryOut, hcreate]
      exact Disk.Extends.refl d
  | file bytes hcreate =>
      simp only [replay, List.foldl_cons, List.foldl_nil, DiskCall.carryOut, hcreate]
      exact (Disk.extends_createFile hcreate).trans (Disk.extends_setContent _ _ _)

theorem Task.perform_extends (s : LiveSource) (config : ExtractConfig) (base : HostPath)
    (t : Task) (r : Run) : r.disk.Extends (t.perform s config base r).disk := by
  cases hplace : t.place? with
  | none =>
      rw [(Task.perform_of_none s config base hplace r).1]
      exact Disk.Extends.refl _
  | some q =>
      obtain ⟨cs, hasked, -, hdisk⟩ := Task.perform_advances s config base hplace r
      rw [hdisk]
      exact hasked.extends

theorem performAll_extends (s : LiveSource) (config : ExtractConfig) (base : HostPath)
    (tasks : List Task) (r : Run) :
    r.disk.Extends (performAll s config base tasks r).disk :=
  performAll_induction (P := fun r' => r.disk.Extends r'.disk)
    (fun t _ _ hr => hr.trans (t.perform_extends s config base _)) (Disk.Extends.refl _)

/-- A leaf that is copied over the file at a place: it is forced, the source opens
it, and its path leads to that file. -/
structure Overwrites (s : LiveSource) (config : ExtractConfig) (base : HostPath)
    (path q : AssetPath) (r : Run) (place : Place) : Prop where
  forced : config.force = true
  kind : s.kind r path ≠ some .directory
  opened : ∃ content, s.openAsset (beginLeaf path r) path = .ok content
  leads : ∃ number bytes, r.disk.resolve (base.under q) = .ok (place, .file number bytes)

theorem ensureDirectory_file (dest : HostPath)
    (hfile : r.disk.get? place = some (.file number bytes)) :
    (ensureDirectory dest r).disk.get? place = some (.file number bytes) := by
  have hmade := Disk.file_of_makeDirectories dest hfile
  unfold ensureDirectory
  split
  · exact hfile
  · split
    · next hmake =>
        rw [hmake] at hmade
        exact hmade
    · next hmake =>
        rw [hmake] at hmade
        exact hmade

/-- A task changes the bytes of a file only by copying a leaf over it. -/
theorem Task.perform_file (s : LiveSource) (config : ExtractConfig) (base : HostPath)
    (t : Task) (hfile : r.disk.get? place = some (.file number bytes)) :
    (t.perform s config base r).disk.get? place = some (.file number bytes) ∨
      ∃ path q, t = .leaf path q ∧ Overwrites s config base path q r place := by
  cases t with
  | noticed | unlistable | invalidName => exact Or.inl hfile
  | directory q => exact Or.inl (ensureDirectory_file _ hfile)
  | leaf path q =>
      rw [Task.perform, extractLeaf_disk]
      by_cases hk : s.kind r path = some .directory
      · rw [if_pos hk]
        cases config.emptyDirectories with
        | skip => exact Or.inl hfile
        | create => exact Or.inl (ensureDirectory_file _ hfile)
      rw [if_neg hk]
      have hcopy := copyLeaf_copying s config path (base.under q) (beginLeaf path r)
      generalize copyLeaf s config path (base.under q) (beginLeaf path r) = out at hcopy ⊢
      cases hcopy with
      | present | unopened | uncreated => exact Or.inl hfile
      | @written content written created copied _ hgo hopen hcreate =>
          by_cases hw : written = place
          · -- The path led to the file, so only force can have got it here.
            subst hw
            have hleads := Disk.resolve_of_createFile hcreate hfile
            have hentry : (beginLeaf path r).disk.hasEntry (base.under q) = true := by
              rw [Disk.hasEntry, hleads]
            have hforce : config.force = true := by
              rcases hgo with hforce | hnone
              · exact hforce
              · rw [hentry] at hnone
                cases hnone
            exact Or.inr ⟨path, q, rfl, hforce, hk, ⟨content, hopen⟩, number, bytes, hleads⟩
          · have hcreated := Disk.file_of_createFile hcreate hfile
            have hset := Disk.file_of_setContent hcreated written copied.sent.written
            rw [if_neg hw, if_neg hw] at hset
            exact Or.inl hset

end Task

/-! ## A run -/

section Run

variable {s : LiveSource} {config : ExtractConfig} {base : HostPath} {tasks : List Task}
  {start r : Run} {path q : AssetPath} {place : Place} {number : Nat} {bytes : Bytes}

/-- A leaf among the tasks of a run, and how far the run has come when it is the
leaf's turn. -/
def TurnOf (s : LiveSource) (config : ExtractConfig) (base : HostPath) (tasks : List Task)
    (start : Run) (path q : AssetPath) (r : Run) : Prop :=
  ∃ done rest, tasks = done ++ .leaf path q :: rest ∧ r = performAll s config base done start

theorem TurnOf.extends (h : TurnOf s config base tasks start path q r) :
    r.disk.Extends (performAll s config base tasks start).disk := by
  obtain ⟨done, rest, rfl, rfl⟩ := h
  rw [performAll_append]
  exact performAll_extends s config base _ _

theorem performAll_file (s : LiveSource) (config : ExtractConfig) (base : HostPath)
    (tasks : List Task) (start : Run)
    (hfile : start.disk.get? place = some (.file number bytes)) :
    (performAll s config base tasks start).disk.get? place = some (.file number bytes) ∨
      ∃ path q r, TurnOf s config base tasks start path q r ∧
        Overwrites s config base path q r place := by
  induction tasks generalizing start with
  | nil => exact Or.inl hfile
  | cons t tasks ih =>
      rcases t.perform_file s config base hfile with hstays | ⟨path, q, rfl, hover⟩
      · rcases ih _ hstays with hend | ⟨path, q, r, ⟨done, rest, rfl, rfl⟩, hover⟩
        · exact Or.inl hend
        · exact Or.inr ⟨path, q, _, ⟨t :: done, rest, rfl, rfl⟩, hover⟩
      · exact Or.inr ⟨path, q, start, ⟨[], tasks, rfl, rfl⟩, hover⟩

end Run

/-- A leaf of a run, and how far the run has come when it is the leaf's turn. -/
def LeafOfRun (s : LiveSource) (config : ExtractConfig) (dest : Destination) (disk : Disk)
    (path q : AssetPath) (r : Run) : Prop :=
  ∃ names events, s.list { disk := disk } config.sourceRoot = (.ok names, events) ∧
    TurnOf s config dest.path
      (planRun s config dest.path names (opening config dest disk events))
      (opening config dest disk events) path q r

/-- What a run preserves of any disk. Every entry is still there, what it was, and
a link leads where it led. Without force every file has its bytes. A file has other
bytes only if the source opened a leaf whose path below the destination led to the
file at the leaf's turn, and leads to it at the end. -/
theorem runLive_preserves (s : LiveSource) (config : ExtractConfig) (dest : Destination)
    (disk : Disk) :
    let out := runLive s config dest disk
    disk.Extends out.disk ∧
      (config.force = false → ∀ place number bytes,
        disk.get? place = some (.file number bytes) →
        out.disk.get? place = some (.file number bytes)) ∧
      ∀ place number bytes, disk.get? place = some (.file number bytes) →
        out.disk.get? place ≠ some (.file number bytes) →
        ∃ path q r, LeafOfRun s config dest disk path q r ∧
          Overwrites s config dest.path path q r place ∧
          ∃ number' bytes', out.disk.resolve (dest.path.under q) =
            .ok (place, .file number' bytes') := by
  intro out
  match hlist : s.list { disk := disk } config.sourceRoot with
  | (.error e, events) =>
      have hout : out.disk = disk := congrArg Outcome.disk (runLive_of_error hlist)
      rw [hout]
      exact ⟨Disk.Extends.refl disk, fun _ _ _ _ hfile => hfile,
        fun _ _ _ hfile hchanged => absurd hfile hchanged⟩
  | (.ok names, events) =>
      have hrun : out = finish _ := runLive_of_list hlist
      rw [congrArg Outcome.disk hrun]
      have hfiles (place : Place) (number : Nat) (bytes : Bytes)
          (hfile : disk.get? place = some (.file number bytes)) :=
        performAll_file s config dest.path
          (planRun s config dest.path names (opening config dest disk events))
          (opening config dest disk events) hfile
      refine ⟨performAll_extends s config dest.path _ (opening config dest disk events),
        fun hforce place number bytes hfile => ?_, fun place number bytes hfile hchanged => ?_⟩
      · rcases hfiles place number bytes hfile with hstays | ⟨path, q, r, -, hover⟩
        · exact hstays
        · rw [hover.forced] at hforce
          cases hforce
      · rcases hfiles place number bytes hfile with hstays | ⟨path, q, r, hturn, hover⟩
        · exact absurd hstays hchanged
        · obtain ⟨number', bytes', hleads⟩ := hover.leads
          obtain ⟨e, hresolve, hshape⟩ := hturn.extends.resolve
            (Or.inl (HostPath.isAbsolute_under (Disk.isAbsolute_pathOf dest.place) q)) hleads
          obtain ⟨content, rfl⟩ := DiskEntry.shape_eq_file.mp hshape
          exact ⟨path, q, r, ⟨names, events, hlist, hturn⟩, hover, number', content, hresolve⟩

/-- A small disk with a link in `out` to the file beside it. -/
def linkedDisk : Disk := Disk.small.put ["out", "f"] (.link "/kept")

theorem runLive_preserves_linked :
    (runLive hostileSource { force := true } ⟨["out"]⟩ linkedDisk).disk.get? ["out", "f"] =
        some (.link "/kept") ∧
      (runLive hostileSource {} ⟨["out"]⟩ linkedDisk).disk.get? ["kept"] = some (.file 0 [7]) ∧
      ∃ path q r, LeafOfRun (.ofSource (.ofDirectory ⟨"/in"⟩)) { force := true } ⟨["in"]⟩
          Disk.small path q r ∧
        Overwrites (.ofSource (.ofDirectory ⟨"/in"⟩)) { force := true } ⟨"/in"⟩ path q r
          ["in", "a"] := by
  obtain ⟨hextends, -, -⟩ := runLive_preserves hostileSource { force := true } ⟨["out"]⟩ linkedDisk
  obtain ⟨-, hkept, -⟩ := runLive_preserves hostileSource {} ⟨["out"]⟩ linkedDisk
  obtain ⟨-, -, hchanged⟩ := runLive_preserves (.ofSource (.ofDirectory ⟨"/in"⟩))
    { force := true } ⟨["in"]⟩ Disk.small
  have hfile : Disk.small.get? (AssetPath.below ⟨[Disk.fileNamed]⟩ ["in"]) =
      some (.file 1 [104, 105]) := rfl
  have hlost : (runLive (.ofSource (.ofDirectory ⟨"/in"⟩)) { force := true } ⟨["in"]⟩
      Disk.small).disk.get? ["in", "a"] = some (.file 1 []) :=
    run_onto_itself { force := true } rfl rfl ⟨["in"]⟩ Disk.linkFreeAt_small_in hfile (by decide)
  obtain ⟨path, q, r, hleaf, hover, -⟩ := hchanged ["in", "a"] 1 [104, 105] hfile
    (by rw [hlost]; decide)
  exact ⟨hextends.link rfl, hkept rfl ["kept"] 0 [7] rfl, path, q, r, hleaf, hover⟩

end AssetUnpack.Extraction
