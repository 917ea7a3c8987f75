import AssetUnpack.Proofs.Disk.Truth
import AssetUnpack.Proofs.Extraction.Tasks

/-!
# What a run asks of the disk

An extraction changes the disk by three kinds of calls and remembers them. Here
the tasks of a run are followed on any disk, however full of links: a copy goes
one of four ways (`Copying`), a task with a place makes the calls of one of four
lists (`Asked`), and the disk after the task is the disk on which these calls
were made (`replay`). What was counted and noted on the way is left out.
-/

namespace AssetUnpack.Extraction

namespace Run

variable (r : Run)

@[simp] theorem note_disk (e : Event) : (r.note e).disk = r.disk := rfl

@[simp] theorem tell_disk (p : Progress) : (r.tell p).disk = r.disk := rfl

@[simp] theorem tell_calls (p : Progress) : (r.tell p).calls = r.calls := rfl

@[simp] theorem fail_disk (e : Event) (w : Warning) : (r.fail e w).disk = r.disk := rfl

@[simp] theorem call_disk (c : DiskCall) (disk : Disk) : (r.call c disk).disk = disk := rfl

@[simp] theorem call_calls (c : DiskCall) (disk : Disk) :
    (r.call c disk).calls = r.calls ++ [c] := rfl

end Run

@[simp] theorem beginLeaf_disk (path : AssetPath) (r : Run) :
    (beginLeaf path r).disk = r.disk := rfl

theorem record_disk (path : AssetPath) (dest : HostPath) (r : Run) (outcome : LeafOutcome) :
    (record path dest r outcome).disk = r.disk := by
  cases outcome <;> rfl

theorem record_calls (path : AssetPath) (dest : HostPath) (r : Run) (outcome : LeafOutcome) :
    (record path dest r outcome).calls = r.calls := by
  cases outcome <;> rfl

/-! ## One leaf

The four ways a copy can go, on any disk. -/

/-- How a leaf is copied: the answer and the run after it. -/
inductive Copying (s : LiveSource) (config : ExtractConfig) (path : AssetPath) (dest : HostPath)
    (r : Run) : Except IoError LeafOutcome × Run → Prop
  | present (hforce : config.force = false) (hthere : r.disk.hasEntry dest = true) :
      Copying s config path dest r (.ok .alreadyExists, r)
  | unopened {e : IoError} (hgo : config.force = true ∨ r.disk.hasEntry dest = false)
      (hopen : s.openAsset r path = .error e) :
      Copying s config path dest r (.error e, r)
  | uncreated {content : Content} {e : IoError}
      (hgo : config.force = true ∨ r.disk.hasEntry dest = false)
      (hopen : s.openAsset r path = .ok content) (hcreate : r.disk.createFile dest = .error e) :
      Copying s config path dest r
        (.ok (.writeFailed e), r.call (.createFile dest) r.disk)
  | written {content : Content} {place : Place} {created : Disk} {out : Copy.Outcome Unit}
      {outcome : LeafOutcome}
      (hgo : config.force = true ∨ r.disk.hasEntry dest = false)
      (hopen : s.openAsset r path = .ok content)
      (hcreate : r.disk.createFile dest = .ok (place, created))
      (hout : out = Copy.run (created.writerAt place) () (content created))
      (houtcome : (∃ n, out.result = .ok n ∧ outcome = .copied n) ∨
        ∃ e, out.result = .error e ∧ outcome = .writeFailed e) :
      Copying s config path dest r
        (.ok outcome, (r.call (.createFile dest) created).call (.write place out.sent.written)
          (created.setContent place out.sent.written))

theorem copyLeaf_copying (s : LiveSource) (config : ExtractConfig) (path : AssetPath)
    (dest : HostPath) (r : Run) :
    Copying s config path dest r (copyLeaf s config path dest r) := by
  unfold copyLeaf
  by_cases hskip : (!config.force && r.disk.hasEntry dest) = true
  · rw [if_pos hskip]
    rw [Bool.and_eq_true, Bool.not_eq_true'] at hskip
    exact .present hskip.1 hskip.2
  rw [if_neg hskip]
  have hgo : config.force = true ∨ r.disk.hasEntry dest = false := by
    simpa [Bool.and_eq_true, Decidable.or_iff_not_imp_left] using hskip
  cases hopen : s.openAsset r path with
  | error e => exact .unopened hgo hopen
  | ok content =>
      cases hcreate : r.disk.createFile dest with
      | error e => exact .uncreated hgo hopen hcreate
      | ok made =>
          obtain ⟨place, created⟩ := made
          cases hresult : (Copy.run (created.writerAt place) () (content created)).result with
          | ok n =>
              simp only [hresult]
              exact .written hgo hopen hcreate rfl (Or.inl ⟨n, hresult, rfl⟩)
          | error e =>
              simp only [hresult]
              exact .written hgo hopen hcreate rfl (Or.inr ⟨e, hresult, rfl⟩)

theorem extractLeaf_disk (s : LiveSource) (config : ExtractConfig) (path : AssetPath)
    (dest : HostPath) (r : Run) :
    (extractLeaf s config path dest r).disk =
      if s.kind r path = some .directory then
        match config.emptyDirectories with
        | .skip => r.disk
        | .create => (ensureDirectory dest r).disk
      else (copyLeaf s config path dest (beginLeaf path r)).2.disk := by
  unfold extractLeaf
  split
  · next hk =>
      rw [if_pos hk]
      cases config.emptyDirectories <;> rfl
  · next hk =>
      rw [if_neg (by simpa using hk)]
      simp only [Run.tell_disk]
      split
      · next hout => rw [hout, record_disk]
      · next hout =>
          rw [hout]
          split <;> rfl

theorem extractLeaf_calls (s : LiveSource) (config : ExtractConfig) (path : AssetPath)
    (dest : HostPath) (r : Run) :
    (extractLeaf s config path dest r).calls =
      if s.kind r path = some .directory then
        match config.emptyDirectories with
        | .skip => r.calls
        | .create => (ensureDirectory dest r).calls
      else (copyLeaf s config path dest (beginLeaf path r)).2.calls := by
  unfold extractLeaf
  split
  · next hk =>
      rw [if_pos hk]
      cases config.emptyDirectories <;> rfl
  · next hk =>
      rw [if_neg (by simpa using hk)]
      simp only [Run.tell_calls]
      split
      · next hout => rw [hout, record_calls]
      · next hout =>
          rw [hout]
          split <;> rfl

/-! ## What a run asks of the disk

Whatever a task changes, it changes by the calls that the run remembers, and it
makes few of them. This holds on any disk. -/

/-- What a call does to the disk. -/
def DiskCall.carryOut (d : Disk) : DiskCall → Disk
  | .createFile path =>
    match d.createFile path with
    | .ok (_, created) => created
    | .error _ => d
  | .makeDirectories path => (d.makeDirectories path).2
  | .write place bytes => d.setContent place bytes

/-- What calls do to the disk, one after the other. -/
def replay (d : Disk) (cs : List DiskCall) : Disk := cs.foldl DiskCall.carryOut d

theorem replay_append (d : Disk) (cs cs' : List DiskCall) :
    replay d (cs ++ cs') = replay (replay d cs) cs' := List.foldl_append

/-- The calls that laying out something at a path comes down to. Without force
no file is created that is there already. -/
inductive Asked (force : Bool) (dest : HostPath) (d : Disk) : List DiskCall → Prop
  | nothing : Asked force dest d []
  | directory : Asked force dest d [.makeDirectories dest]
  | refused {e : IoError} (h : d.createFile dest = .error e) :
      Asked force dest d [.createFile dest]
  | file {place : Place} {created : Disk} (bytes : Bytes)
      (h : d.createFile dest = .ok (place, created))
      (hnew : force = true ∨ d.get? place = none) :
      Asked force dest d [.createFile dest, .write place bytes]

/-- A run that got further by laying out something at a path. -/
def Advances (force : Bool) (dest : HostPath) (r r' : Run) : Prop :=
  ∃ cs, Asked force dest r.disk cs ∧ r'.calls = r.calls ++ cs ∧ r'.disk = replay r.disk cs

theorem advances_of_eq {force : Bool} {dest : HostPath} {r r' : Run}
    (hdisk : r'.disk = r.disk) (hcalls : r'.calls = r.calls) : Advances force dest r r' :=
  ⟨[], .nothing, by rw [hcalls, List.append_nil], hdisk⟩

theorem ensureDirectory_advances (force : Bool) (dest : HostPath) (r : Run) :
    Advances force dest r (ensureDirectory dest r) := by
  unfold ensureDirectory
  split
  · exact advances_of_eq rfl rfl
  · refine ⟨[.makeDirectories dest], .directory, ?_⟩
    split <;> rename_i hmake
    · exact ⟨rfl, by simp [replay, DiskCall.carryOut, hmake]⟩
    · exact ⟨rfl, by simp [replay, DiskCall.carryOut, hmake]⟩

theorem copyLeaf_advances (s : LiveSource) (config : ExtractConfig) (path : AssetPath)
    (dest : HostPath) (r : Run) :
    Advances config.force dest r (copyLeaf s config path dest r).2 := by
  have hcopy := copyLeaf_copying s config path dest r
  generalize copyLeaf s config path dest r = out at hcopy ⊢
  cases hcopy with
  | present | unopened => exact advances_of_eq rfl rfl
  | uncreated _ _ hcreate =>
      refine ⟨_, .refused hcreate, rfl, ?_⟩
      simp [replay, DiskCall.carryOut, hcreate]
  | @written content place created copied _ hgo _ hcreate =>
      have hnew := hgo.imp_right fun hentry => Disk.createFile_new hcreate hentry
      refine ⟨_, .file copied.sent.written hcreate hnew, ?_, ?_⟩
      · simp only [Run.call_calls, List.append_assoc, List.cons_append, List.nil_append]
      · simp [replay, DiskCall.carryOut, hcreate]

theorem extractLeaf_advances (s : LiveSource) (config : ExtractConfig) (path : AssetPath)
    (dest : HostPath) (r : Run) :
    Advances config.force dest r (extractLeaf s config path dest r) := by
  have hdisk := extractLeaf_disk s config path dest r
  have hcalls := extractLeaf_calls s config path dest r
  by_cases hk : s.kind r path = some .directory
  · rw [if_pos hk] at hdisk hcalls
    cases hempty : config.emptyDirectories with
    | skip =>
        rw [hempty] at hdisk hcalls
        exact advances_of_eq hdisk hcalls
    | create =>
        rw [hempty] at hdisk hcalls
        obtain ⟨cs, hasked, hcs, hreplay⟩ := ensureDirectory_advances config.force dest r
        exact ⟨cs, hasked, hcalls.trans hcs, hdisk.trans hreplay⟩
  · rw [if_neg hk] at hdisk hcalls
    obtain ⟨cs, hasked, hcs, hreplay⟩ := copyLeaf_advances s config path dest (beginLeaf path r)
    exact ⟨cs, hasked, hcalls.trans hcs, hdisk.trans hreplay⟩

/-- A task with a place lays something out there. -/
theorem Task.perform_advances (s : LiveSource) (config : ExtractConfig) (base : HostPath)
    {t : Task} {place : AssetPath} (h : t.place? = some place) (r : Run) :
    Advances config.force (base.under place) r (t.perform s config base r) := by
  cases t with
  | noticed | unlistable | invalidName => cases h
  | directory q =>
      obtain rfl : q = place := Option.some.inj h
      exact ensureDirectory_advances _ _ r
  | leaf path q =>
      obtain rfl : q = place := Option.some.inj h
      exact extractLeaf_advances s config path _ r

theorem Task.perform_of_none (s : LiveSource) (config : ExtractConfig) (base : HostPath)
    {t : Task} (h : t.place? = none) (r : Run) :
    (t.perform s config base r).disk = r.disk ∧ (t.perform s config base r).calls = r.calls := by
  cases t with
  | noticed | unlistable | invalidName => exact ⟨rfl, rfl⟩
  | directory | leaf => cases h

end AssetUnpack.Extraction
