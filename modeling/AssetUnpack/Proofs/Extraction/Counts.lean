import AssetUnpack.Proofs.Extraction.Deeds
import AssetUnpack.Proofs.Extraction.Laid

/-!
# What a task counts

Beside the disk a task changes the report, and which of its counters goes up is
decided by how a leaf was copied or a directory was made. `leafReport` and
`directoryReport` are these decisions by themselves.
-/

namespace AssetUnpack.Extraction

open Disk (pathOf)

/-- The report after a leaf, by how it ended. -/
def leafReport (path : AssetPath) (dest : HostPath) (kind : Option NodeKind) (report : Report) :
    Except IoError LeafOutcome → Report
  | .ok (.copied bytes) =>
    { report with
      filesCopied := report.filesCopied + 1
      bytesWritten := report.bytesWritten + bytes }
  | .ok .alreadyExists => { report with filesSkipped := report.filesSkipped + 1 }
  | .ok (.writeFailed e) => report.fail (.failedToWrite dest.text e)
  | .error e =>
    match kind with
    | some _ => report.fail (.failedToOpen path e)
    | none => { report with leavesUnreadable := report.leavesUnreadable + 1 }

/-- A deed books what the end of the leaf calls for. -/
theorem leafDeed_book (path : AssetPath) (dest : HostPath) (kind : Option NodeKind)
    (report : Report) (result : Except IoError LeafOutcome) :
    (leafDeed path dest kind result).book report = leafReport path dest kind report result := by
  match result with
  | .ok (.copied _) | .ok .alreadyExists | .ok (.writeFailed _) => rfl
  | .error _ => cases kind <;> rfl

theorem extractLeaf_report {s : LiveSource} {path : AssetPath} {r : Run}
    (h : s.kind r path ≠ some .directory) (config : ExtractConfig) (dest : HostPath) :
    (extractLeaf s config path dest r).report =
      leafReport path dest (s.kind r path) r.report
        (copyLeaf s config path dest (beginLeaf path r)).1 :=
  (extractLeaf_recorded h).report.trans (leafDeed_book _ _ _ _ _)

/-- An empty directory counts like any directory, or not at all. -/
theorem extractLeaf_report_of_directory {s : LiveSource} {path : AssetPath} {r : Run}
    (h : s.kind r path = some .directory) (config : ExtractConfig) (dest : HostPath) :
    (extractLeaf s config path dest r).report =
      match config.emptyDirectories with
      | .skip => r.report
      | .create => (ensureDirectory dest r).report := by
  unfold extractLeaf
  rw [h]
  cases config.emptyDirectories <;> rfl

section Plain

variable {s : LiveSource} {config : ExtractConfig} {path : AssetPath} {r : Run}
  {parent : Place} {name : String}

/-- The report after a directory at an open name, by what stood there. -/
def directoryReport (dest : HostPath) (report : Report) : Option DiskEntry → Report
  | none => { report with directoriesCreated := report.directoriesCreated + 1 }
  | some .directory => report
  | some _ => report.fail (.failedToCreate dest.text .entryExists)

theorem ensureDirectory_report (hp : r.disk.Plain parent name)
    (ho : r.disk.Opens parent name) :
    (ensureDirectory ⟨pathOf (parent ++ [name])⟩ r).report =
      directoryReport ⟨pathOf (parent ++ [name])⟩ r.report (r.disk.get? (parent ++ [name])) := by
  have hdir := hp.hasDirectory_iff ho
  have hmake := hp.makeDirectories ho
  unfold ensureDirectory
  cases he : r.disk.get? (parent ++ [name]) with
  | none =>
      rw [he] at hmake
      rw [if_neg (fun hc => by rw [hdir.mp hc] at he; cases he), hmake]
      rfl
  | some e =>
      rw [he] at hmake
      cases e with
      | directory =>
          rw [if_pos (hdir.mpr he)]
          rfl
      | file | link | device =>
          rw [if_neg (fun hc => by rw [hdir.mp hc] at he; cases he), hmake]
          rfl

theorem ensureDirectory_report_of_barred (hp : r.disk.Plain parent name)
    (hb : r.disk.Barred (parent ++ [name])) :
    ∃ w, (ensureDirectory ⟨pathOf (parent ++ [name])⟩ r).report = r.report.fail w := by
  obtain ⟨err, hmake⟩ := hp.makeDirectories_of_barred hb
  unfold ensureDirectory
  rw [hp.hasDirectory_of_barred hb, hmake]
  exact ⟨_, rfl⟩

theorem copyLeaf_of_present (hp : r.disk.Plain parent name) (ho : r.disk.Opens parent name)
    (hforce : config.force = false) (hthere : r.disk.get? (parent ++ [name]) ≠ none) :
    copyLeaf s config path ⟨pathOf (parent ++ [name])⟩ r = (.ok .alreadyExists, r) := by
  have hentry : r.disk.hasEntry ⟨pathOf (parent ++ [name])⟩ = true := by
    rw [hp.hasEntry ho, Option.isSome_iff_ne_none]
    exact hthere
  unfold copyLeaf
  rw [hforce, hentry]
  rfl

/-- At a barred place nothing is copied either. -/
theorem copyLeaf_of_barred (s : LiveSource) (config : ExtractConfig) (path : AssetPath)
    (hp : r.disk.Plain parent name) (hb : r.disk.Barred (parent ++ [name])) :
    (∃ e, s.openAsset r path = .error e ∧
        (copyLeaf s config path ⟨pathOf (parent ++ [name])⟩ r).1 = .error e) ∨
      ∃ content e, s.openAsset r path = .ok content ∧
        (copyLeaf s config path ⟨pathOf (parent ++ [name])⟩ r).1 = .ok (.writeFailed e) := by
  obtain ⟨err, herr⟩ := hp.createFile_of_barred hb
  have hentry := hp.hasEntry_of_barred hb
  have hcopy := copyLeaf_copying s config path ⟨pathOf (parent ++ [name])⟩ r
  generalize copyLeaf s config path ⟨pathOf (parent ++ [name])⟩ r = out at hcopy ⊢
  cases hcopy with
  | present _ hthere =>
      rw [hentry] at hthere
      cases hthere
  | unopened _ hopen => exact Or.inl ⟨_, hopen, rfl⟩
  | uncreated _ hopen => exact Or.inr ⟨_, _, hopen, rfl⟩
  | written _ _ hcreate =>
      rw [herr] at hcreate
      cases hcreate

theorem copyLeaf_of_error {e : IoError} (hopen : s.openAsset r path = .error e)
    (config : ExtractConfig) (dest : HostPath) :
    (copyLeaf s config path dest r).2 = r ∧
      ∀ n, (copyLeaf s config path dest r).1 ≠ .ok (.copied n) := by
  have hcopy := copyLeaf_copying s config path dest r
  generalize copyLeaf s config path dest r = out at hcopy ⊢
  cases hcopy with
  | present | unopened => exact ⟨rfl, by simp⟩
  | uncreated _ hopen' | written _ hopen' =>
      rw [hopen] at hopen'
      cases hopen'

/-- Plain bytes are copied where nothing is, and over a file that need not
stay. -/
theorem copyLeaf_of_room (config : ExtractConfig) {content : Content} {bytes : Bytes}
    (hp : r.disk.Plain parent name) (ho : r.disk.Opens parent name)
    (hgo : ¬ (config.force = false ∧ r.disk.get? (parent ++ [name]) ≠ none))
    (hroom : ∀ e, r.disk.get? (parent ++ [name]) = some e → ∃ number old, e = .file number old)
    (hopen : s.openAsset r path = .ok content) (hbytes : ∀ d, content d = .ofBytes bytes) :
    (copyLeaf s config path ⟨pathOf (parent ++ [name])⟩ r).1 =
        .ok (.copied (min bytes.length Copy.totalLimit)) ∧
      (copyLeaf s config path ⟨pathOf (parent ++ [name])⟩ r).2.disk =
        r.disk.keep (parent ++ [name]) bytes := by
  have hne := Disk.place_ne_nil parent name
  obtain ⟨hresult, hkept⟩ := Copy.run_keeping bytes
  constructor
  · have hcopy := copyLeaf_copying s config path ⟨pathOf (parent ++ [name])⟩ r
    generalize copyLeaf s config path ⟨pathOf (parent ++ [name])⟩ r = out at hcopy ⊢
    cases hcopy with
    | present hforce hthere =>
        rw [hp.hasEntry ho, Option.isSome_iff_ne_none] at hthere
        exact absurd ⟨hforce, hthere⟩ hgo
    | unopened _ hopen' =>
        rw [hopen] at hopen'
        cases hopen'
    | uncreated _ _ hcreate =>
        obtain ⟨number, old, he⟩ := hroom _ (hp.createFile_error ho hcreate)
        cases he
    | written _ hopen' hcreate hout houtcome =>
        obtain ⟨rfl, rfl⟩ := hp.createFile_ok ho hcreate
        rw [hopen] at hopen'
        obtain rfl := Except.ok.inj hopen'
        have hdevice : (r.disk.keep (parent ++ [name]) []).get? (parent ++ [name]) ≠
            some (.device .full) := by
          intro hfull
          obtain ⟨number, old, he⟩ := hroom _ (Disk.get?_keep_other hne hfull (by simp))
          cases he
        rw [hbytes, Disk.writerAt_eq_keeping hdevice] at hout
        rw [hout] at houtcome
        rcases houtcome with ⟨n, hn, rfl⟩ | ⟨e, he, -⟩
        · rw [hresult] at hn
          rw [Except.ok.inj hn]
        · rw [hresult] at he
          cases he
  · rw [copyLeaf_disk hp ho, leafBytes, if_neg hgo, hopen]
    show r.disk.keep _ (Copy.kept (content _)) = _
    rw [hbytes, hkept]

end Plain

end AssetUnpack.Extraction
