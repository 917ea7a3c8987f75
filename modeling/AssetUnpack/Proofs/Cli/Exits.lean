import AssetUnpack.Cli.Program
import AssetUnpack.Proofs.Extraction.Refusal

/-!
# Runs that fail change nothing

A command that fails does so before it writes: the path of the starting node is read,
the package opened and indexed, the destination looked at and the starting node listed,
and any of these may be refused. After that nothing fails any more, since what goes
wrong at a node stays at that node. So a run of the program that exits with another
code than 0 leaves the disk as it was and its standard output empty
(`runOn_untouched`), and an extraction is all or nothing at each of its entries.
-/

namespace AssetUnpack

open Extraction (LiveSource Hindered heardFirst runForPlatform runAndForget abortions sourceEvents
  hostileSource)

namespace Cli

/-! ## The command -/

/-- What makes the command fail. -/
inductive ExtractArguments.Refused (a : ExtractArguments) (disk : Disk) : Prop
  /-- The starting node has no path. -/
  | subtree (e : InvalidPath) (h : AssetPath.parse a.subtree = .error e)
  /-- The package cannot be opened or makes no sense. -/
  | package (e : ExtractError) (h : (Source.openPackage disk ⟨a.source⟩ a.scope).1 = .error e)
  /-- Something keeps the extraction from running. -/
  | extraction (root : AssetPath) (s : Source) (hroot : AssetPath.parse a.subtree = .ok root)
    (hopen : (Source.openPackage disk ⟨a.source⟩ a.scope).1 = .ok s)
    (h : Hindered (.ofSource s) root (some (a.destination disk)) disk)

namespace ExtractArguments

variable {a : ExtractArguments} {disk : Disk}

/-- What the command comes to once there is a starting node and a source. -/
theorem perform_of_source {root : AssetPath} {s : Source} {events : List Event}
    (hroot : AssetPath.parse a.subtree = .ok root)
    (hopen : Source.openPackage disk ⟨a.source⟩ a.scope = (.ok s, events)) :
    a.perform disk =
      let out := Extraction.runForPlatform (.ofSource s) (a.config root)
        (some (a.destination disk)) disk
      match out.result with
      | .error e => .refused a.source out.disk (events ++ out.events) e
      | .ok r => ⟨.ok (.report r), out.disk, events ++ out.events⟩ := by
  rw [perform, hroot]
  dsimp only
  rw [hopen]
  rfl

theorem perform_of_refused (h : a.Refused disk) :
    ∃ text events, a.perform disk = ⟨.error text, disk, events⟩ := by
  cases h with
  | subtree e hroot =>
      rw [perform, hroot]
      exact ⟨_, _, rfl⟩
  | package e hopen =>
      rw [perform]
      cases AssetPath.parse a.subtree with
      | error e => exact ⟨_, _, rfl⟩
      | ok root =>
          dsimp only
          rw [show Source.openPackage disk ⟨a.source⟩ a.scope = (.error e, _) from
            Prod.ext hopen rfl]
          exact ⟨_, _, rfl⟩
  | extraction root s hroot hopen hhindered =>
      obtain ⟨e, hrun⟩ := Extraction.runForPlatform_of_hindered (a.config root) hhindered
      rw [perform_of_source hroot (Prod.ext hopen rfl), hrun]
      exact ⟨_, _, rfl⟩

theorem perform_of_not_refused (h : ¬ a.Refused disk) :
    ∃ report, (a.perform disk).result = .ok (.report report) := by
  cases hroot : AssetPath.parse a.subtree with
  | error e => exact absurd (.subtree e hroot) h
  | ok root =>
      cases hopen : Source.openPackage disk ⟨a.source⟩ a.scope with
      | mk result events =>
          cases result with
          | error e => exact absurd (.package e (congrArg Prod.fst hopen)) h
          | ok s =>
              have hfree : ¬ Hindered (.ofSource s) root (some (a.destination disk)) disk :=
                fun hhindered => h (.extraction root s hroot (congrArg Prod.fst hopen) hhindered)
              obtain ⟨found, report, -, hrun, hresult⟩ :=
                Extraction.runForPlatform_of_not_hindered (a.config root) hfree
              rw [perform_of_source hroot hopen, hrun]
              dsimp only
              rw [hresult]
              exact ⟨report, rfl⟩

/-- The command fails exactly if it is refused. -/
theorem perform_error_iff :
    (∃ text, (a.perform disk).result = .error text) ↔ a.Refused disk := by
  by_cases h : a.Refused disk
  · obtain ⟨text, events, hperform⟩ := perform_of_refused h
    exact iff_of_true ⟨text, congrArg Ending.result hperform⟩ h
  · obtain ⟨report, hresult⟩ := perform_of_not_refused h
    rw [hresult]
    exact iff_of_false nofun h

end ExtractArguments

/-- Any command that fails leaves the disk as it was. -/
theorem Command.perform_untouched {c : Command} {disk : Disk} {text : String}
    (h : (c.perform disk).result = .error text) : (c.perform disk).disk = disk := by
  cases c with
  | extract a =>
      obtain ⟨text, events, hperform⟩ :=
        ExtractArguments.perform_of_refused (ExtractArguments.perform_error_iff.mp ⟨text, h⟩)
      exact congrArg Ending.disk hperform
  | list a =>
      rw [perform, ListArguments.perform]
      cases Source.openPackage disk ⟨a.source⟩ a.scope with
      | mk result events =>
          cases result with
          | error e => rfl
          | ok s =>
              dsimp only
              cases Manifest.ofSource s disk .root with
              | mk result listed => cases result <;> rfl
  | completion shell => rfl

/-! ## The program -/

/-- A run that ends before its command prints nothing unless it was asked to. -/
theorem Job.prepare_error {arguments : List String} {filter : Option String} {exit : Exit}
    (h : Job.prepare arguments filter = .error exit) (hcode : exit.code ≠ 0) :
    exit.stdout = "" := by
  rw [prepare] at h
  split at h
  · next halt _ =>
      obtain rfl := Except.error.inj h
      cases halt with
      | misuse fault => rfl
      | help => exact absurd rfl hcode
      | version part => exact absurd rfl hcode
  · split at h
    · cases h
    · cases h
    · obtain rfl := Except.error.inj h
      rfl

/-- The code of a run that came to its command tells whether that failed. -/
theorem Job.exit_code_ne_zero_iff (job : Job) (colors : Bool) (nanos : Nat) (ending : Ending) :
    (job.exit colors nanos ending).code ≠ 0 ↔ ∃ text, ending.result = .error text := by
  rw [exit]
  cases ending.result with
  | ok answer => exact iff_of_false (fun h => h rfl) nofun
  | error text => exact iff_of_true Nat.one_ne_zero ⟨text, rfl⟩

/-- A run that does not exit with 0 leaves the disk as it was and prints nothing. -/
theorem runOn_untouched {arguments : List String} {filter : Option String} {colors : Bool}
    {nanos : Nat} {disk : Disk} (h : (runOn arguments filter colors nanos disk).1.code ≠ 0) :
    (runOn arguments filter colors nanos disk).2 = disk ∧
      (runOn arguments filter colors nanos disk).1.stdout = "" := by
  rw [runOn] at h ⊢
  cases hprepare : Job.prepare arguments filter with
  | error exit =>
      rw [hprepare] at h
      exact ⟨rfl, Job.prepare_error hprepare h⟩
  | ok job =>
      rw [hprepare] at h
      dsimp only at h ⊢
      obtain ⟨text, hresult⟩ := (job.exit_code_ne_zero_iff colors nanos _).mp h
      refine ⟨Command.perform_untouched hresult, ?_⟩
      rw [Job.exit, hresult]

/-! ## All or nothing -/

end Cli

end AssetUnpack
