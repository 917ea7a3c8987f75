import AssetUnpack.Proofs.Extraction.Accounts

/-!
# What keeps an extraction from running

An extraction needs a directory that it may write to and a list of what is below its
starting node, and nothing else: `Hindered` is that one of the two is missing. Then it
is refused before anything is asked of the disk and before any watcher is told
(`runForPlatform_of_hindered`). Otherwise it runs to its end, whatever fails on the
way (`runForPlatform_of_not_hindered`).

An extraction that reports nothing says so in one event at the end. That no run says
it is counted over the tasks of its plan (`abortions_performAll`): a task notes none
of its own, so there are as many as the source made.
-/

namespace AssetUnpack

theorem Destination.resolveOptional_eq_ok {d : Disk} {path : Option HostPath}
    {dest : Destination} :
    resolveOptional d path = .ok dest ↔ ∃ p, path = some p ∧ Usable d p dest := by
  cases path with
  | none => simp [resolveOptional]
  | some p => simp [resolveOptional, resolve_eq_ok]

namespace Extraction

/-- What keeps an extraction from running. -/
inductive Hindered (s : LiveSource) (root : AssetPath) (dest : Option HostPath) (disk : Disk) :
    Prop
  /-- The platform has no directory to offer. -/
  | noDirectory (h : dest = none)
  /-- The path leads to no directory, or to none that may be written to. -/
  | unusable (path : HostPath) (h : dest = some path)
    (hpath : ∀ found, ¬ Destination.Usable disk path found)
  /-- The starting node cannot be listed. -/
  | unlistable (e : IoError) (h : (s.list { disk := disk } root).1 = .error e)

/-- What the source notices before it is known whether an extraction can run. -/
def heardFirst (s : LiveSource) (root : AssetPath) (dest : Option HostPath) (disk : Disk) :
    List Event :=
  match Destination.resolveOptional disk dest with
  | .error _ => []
  | .ok _ => (s.list { disk := disk } root).2

/-- How many events say that an extraction was aborted. -/
def abortions (events : List Event) : Nat :=
  events.countP (·.message = "asset extraction aborted")

section Refusal

variable {s : LiveSource} {config : ExtractConfig} {dest : Option HostPath} {disk : Disk}

theorem runForPlatform_of_hindered (config : ExtractConfig)
    (h : Hindered s config.sourceRoot dest disk) :
    ∃ e, runForPlatform s config dest disk =
      .refused disk (heardFirst s config.sourceRoot dest disk) e := by
  unfold runForPlatform heardFirst
  cases hresolve : Destination.resolveOptional disk dest with
  | error e => exact ⟨e, rfl⟩
  | ok found =>
      obtain ⟨path, hpath, husable⟩ := Destination.resolveOptional_eq_ok.mp hresolve
      cases h with
      | noDirectory hnone =>
          rw [hnone] at hpath
          cases hpath
      | unusable path' hsome hunusable =>
          obtain rfl := Option.some.inj (hpath.symm.trans hsome)
          exact absurd husable (hunusable found)
      | unlistable e hlist =>
          exact ⟨_, runLive_of_error (Prod.ext hlist rfl)⟩

theorem runForPlatform_of_not_hindered (config : ExtractConfig)
    (h : ¬ Hindered s config.sourceRoot dest disk) :
    ∃ found report, Destination.resolveOptional disk dest = .ok found ∧
      runForPlatform s config dest disk = runLive s config found disk ∧
      (runLive s config found disk).result = .ok report := by
  cases hresolve : Destination.resolveOptional disk dest with
  | error e =>
      refine absurd ?_ h
      cases dest with
      | none => exact .noDirectory rfl
      | some path =>
          refine .unusable path rfl fun found husable => ?_
          have hok := Destination.resolveOptional_eq_ok.mpr ⟨path, rfl, husable⟩
          rw [hresolve] at hok
          cases hok
  | ok found =>
      cases hlist : s.list { disk := disk } config.sourceRoot with
      | mk result events =>
          cases result with
          | error e => exact absurd (.unlistable e (congrArg Prod.fst hlist)) h
          | ok names =>
              refine ⟨found, _, rfl, ?_, congrArg Outcome.result (runLive_of_list hlist)⟩
              rw [runForPlatform, hresolve]

/-- A run fails exactly if something keeps it from running. -/
theorem runForPlatform_error_iff :
    (∃ e, (runForPlatform s config dest disk).result = .error e) ↔
      Hindered s config.sourceRoot dest disk := by
  by_cases h : Hindered s config.sourceRoot dest disk
  · obtain ⟨e, hrun⟩ := runForPlatform_of_hindered config h
    exact iff_of_true ⟨e, congrArg Outcome.result hrun⟩ h
  · obtain ⟨found, report, -, hrun, hresult⟩ := runForPlatform_of_not_hindered config h
    rw [hrun, hresult]
    exact iff_of_false nofun h

end Refusal

/-! ## No run says that it was aborted -/

theorem abortions_append (events more : List Event) :
    abortions (events ++ more) = abortions events + abortions more :=
  List.countP_append

theorem abortions_emitted (deed : Deed) : abortions deed.emitted = 0 := by
  cases deed <;> simp [abortions, Deed.emitted, Event.message]

section Run

variable {s : LiveSource} {config : ExtractConfig} {base : HostPath}

theorem abortions_performAll (tasks : List Task) (r : Run) :
    abortions (performAll s config base tasks r).events =
      abortions r.events + abortions (tasks.flatMap Task.heard) := by
  induction tasks generalizing r with
  | nil => rfl
  | cons t tasks ih =>
      -- A task adds what the source noticed and the events of its deed, of which none counts.
      have htask := (t.perform_recorded s config base r).events
      have hstep : abortions (t.perform s config base r).events =
          abortions r.events + abortions t.heard := by
        rw [htask, abortions_append, abortions_append, abortions_emitted, t.deed_heard]
        rfl
      rw [List.flatMap_cons, abortions_append, ← Nat.add_assoc, ← hstep]
      exact ih _

theorem abortions_planRun_nil (r : Run) :
    abortions ((planRun s config base [] r).flatMap Task.heard) = 0 := by
  rw [planRun]
  cases config.sourceRoot.fileName? with
  | none => rfl
  | some name =>
      simp only []
      split <;> rfl

end Run

/-- A run that was not kept from running says only what its source says of being aborted. -/
theorem abortions_runLive {s : LiveSource} {config : ExtractConfig} {dest : Destination}
    {disk : Disk} {report : Report} (h : (runLive s config dest disk).result = .ok report) :
    abortions (runLive s config dest disk).events =
      abortions (sourceEvents s config dest disk) := by
  match hlist : s.list { disk := disk } config.sourceRoot with
  | (.error e, events) =>
      rw [runLive_of_error hlist] at h
      cases h
  | (.ok names, events) =>
      rw [runLive_of_list hlist]
      have hopening : abortions (opening config dest disk events).events = abortions events :=
        abortions_append events [_]
      have hfinish (r : Run) : abortions (finish r).events = abortions r.events :=
        abortions_append r.events [closing r.report]
      rw [hfinish, abortions_performAll, hopening, sourceEvents, hlist]
      cases names with
      | nil =>
          rw [abortions_planRun_nil]
          rfl
      | cons name names => exact (abortions_append _ _).symm

section Forget

variable {s : LiveSource} {dest : Option HostPath} {disk : Disk} (force : Bool)

theorem runAndForget_of_hindered (h : Hindered s .root dest disk) :
    ∃ e, runAndForget s force dest disk = (disk, heardFirst s .root dest disk ++ [.aborted e]) := by
  obtain ⟨e, hrun⟩ := runForPlatform_of_hindered { force } h
  refine ⟨e, ?_⟩
  rw [runAndForget, hrun]
  rfl

theorem abortions_runAndForget (h : ¬ Hindered s .root dest disk) :
    ∃ found, Destination.resolveOptional disk dest = .ok found ∧
      abortions (runAndForget s force dest disk).2 =
        abortions (sourceEvents s { force } found disk) := by
  obtain ⟨found, report, hfound, hrun, hresult⟩ :=
    runForPlatform_of_not_hindered { force } h
  refine ⟨found, hfound, ?_⟩
  rw [runAndForget, hrun, hresult]
  exact abortions_runLive hresult

end Forget

end Extraction

end AssetUnpack
