import Mathlib.Algebra.GroupWithZero.Nat
import AssetUnpack.Proofs.Extraction.Containment
import AssetUnpack.Proofs.Extraction.Deeds

/-!
# The report accounts for every event

A run writes its report, its events and the news for its watchers side by side,
and a reader of one of them is entitled to the others: the failures of a report
are its warnings and are the events that were logged as warnings and errors,
four counters are each the number of events with one message (`Tally`), and every
leaf that was begun is in exactly one of four counts.

`Balanced` is these equations. They hold of a run that has done nothing, and
every deed adds the same to both sides of each, so nothing has to be known about
the walk. What the source notices while it is asked is written among the events
too, and the source is free to notice anything; `sourceEvents` are those events,
and the equations are about the others.
-/

namespace AssetUnpack

/-- The bytes of the copy that an event tells of. -/
def Event.copiedBytes : Event → Nat
  | .copied _ _ bytes => bytes
  | _ => 0

/-- Whether an event is logged as a warning or as an error. -/
def Event.Troubling (e : Event) : Prop := e.level = .warn ∨ e.level = .error

instance (e : Event) : Decidable e.Troubling := inferInstanceAs (Decidable (_ ∨ _))

/-- The counters of a report that are the number of events with one message. -/
inductive Tally
  | copied | skipped | unreadable | made

namespace Tally

def count (report : Report) : Tally → Nat
  | copied => report.filesCopied
  | skipped => report.filesSkipped
  | unreadable => report.leavesUnreadable
  | made => report.directoriesCreated

def message : Tally → String
  | copied => "copied asset"
  | skipped => "asset already exists, skipping"
  | unreadable => "asset cannot be opened, treating it as a directory"
  | made => "created directory"

end Tally

/-- Whether a warning is about a leaf that was begun. -/
def Warning.OfLeaf (w : Warning) : Prop :=
  w.Begins "failed to open" ∨ w.Begins "failed to write"

instance (w : Warning) : Decidable w.OfLeaf := inferInstanceAs (Decidable (_ ∨ _))

/-- The leaves that a report accounts for. -/
def Report.leavesEnded (report : Report) : Nat :=
  report.filesCopied + report.filesSkipped + report.leavesUnreadable +
    report.warnings.countP (·.OfLeaf)

namespace Extraction

/-- What a run noted itself, and how many leaves it began, agree with its
report. -/
structure Balanced (own : List Event) (leaves : Nat) (report : Report) : Prop where
  warnings : report.nodesFailed = report.warnings.length
  troubles : report.nodesFailed = own.countP (·.Troubling)
  tallies : ∀ t : Tally, t.count report = own.countP (·.message = t.message)
  bytes : report.bytesWritten = (own.map Event.copiedBytes).sum
  leaves : leaves = report.leavesEnded

/-! ## What a deed adds -/

namespace Deed

variable (report : Report) (deed : Deed)

theorem book_nodesFailed :
    (deed.book report).nodesFailed = report.nodesFailed + deed.warning?.toList.length := by
  cases deed <;> rfl

/-- A deed has a warning exactly if it is logged as trouble. -/
theorem troubles_emitted : deed.emitted.countP (·.Troubling) = deed.warning?.toList.length := by
  cases deed <;> simp [emitted, warning?, Event.Troubling, Event.level]

theorem book_tally (t : Tally) :
    t.count (deed.book report) = t.count report + deed.emitted.countP (·.message = t.message) := by
  cases deed <;> cases t <;>
    simp [book, warning?, emitted, Event.message, Report.fail, Tally.count, Tally.message]

theorem book_bytesWritten :
    (deed.book report).bytesWritten =
      report.bytesWritten + (deed.emitted.map Event.copiedBytes).sum := by
  cases deed <;> simp [book, warning?, emitted, Event.copiedBytes, Report.fail]

end Deed

theorem ofLeaf_failedToOpen (path : AssetPath) (e : IoError) :
    (Warning.failedToOpen path e).OfLeaf :=
  Or.inl (Warning.begins_of_lead (by simp only [Warning.lead]; decide))

theorem ofLeaf_failedToWrite (dest : String) (e : IoError) :
    (Warning.failedToWrite dest e).OfLeaf :=
  Or.inr (Warning.begins_of_lead (by simp only [Warning.lead]; decide))

/-- Nothing else that goes wrong is about a leaf. -/
theorem not_ofLeaf {w : Warning} {lead : String} (hlead : w.lead = lead)
    (h : lead = "invalid asset name " ∨ lead = "failed to list '" ∨
      lead = "failed to create '") : ¬ w.OfLeaf := by
  rintro (hopen | hwrite)
  · refine Warning.not_begins_of_lead hlead ?_ hopen
    rcases h with rfl | rfl | rfl <;> decide
  · refine Warning.not_begins_of_lead hlead ?_ hwrite
    rcases h with rfl | rfl | rfl <;> decide

theorem Deed.book_leavesEnded (report : Report) (deed : Deed) :
    (deed.book report).leavesEnded = report.leavesEnded + deed.started?.toList.length := by
  cases deed with
  | noticed | standing | emptySkipped | created => rfl
  | unlistable path e =>
      have hnot := not_ofLeaf (w := .failedToList path e) rfl (Or.inr (Or.inl rfl))
      simp [book, warning?, started?, Report.leavesEnded, Report.fail, hnot]
  | invalidName parent name e =>
      have hnot := not_ofLeaf (w := .invalidName parent name) rfl (Or.inl rfl)
      simp [book, warning?, started?, Report.leavesEnded, Report.fail, hnot]
  | uncreated dest e =>
      have hnot := not_ofLeaf (w := .failedToCreate dest.text e) rfl (Or.inr (Or.inr rfl))
      simp [book, warning?, started?, Report.leavesEnded, Report.fail, hnot]
  | copied | present | unreadable =>
      simp only [book, warning?, started?, Report.leavesEnded, Option.toList_some,
        List.length_singleton]
      omega
  | unwritten path dest e =>
      have hof := ofLeaf_failedToWrite dest.text e
      simp only [book, warning?, started?, Report.leavesEnded, Report.fail, List.countP_append,
        List.countP_singleton, hof, decide_true, if_true, Option.toList_some, List.length_singleton]
      omega
  | unopened path e =>
      have hof := ofLeaf_failedToOpen path e
      simp only [book, warning?, started?, Report.leavesEnded, Report.fail, List.countP_append,
        List.countP_singleton, hof, decide_true, if_true, Option.toList_some, List.length_singleton]
      omega

section Balance

variable {own : List Event} {leaves : Nat} {report : Report}

theorem Balanced.book (h : Balanced own leaves report) (deed : Deed) :
    Balanced (own ++ deed.emitted) (leaves + deed.started?.toList.length) (deed.book report) where
  warnings := by
    rw [deed.book_nodesFailed, deed.book_warnings, List.length_append, h.warnings]
  troubles := by
    rw [deed.book_nodesFailed, List.countP_append, deed.troubles_emitted, h.troubles]
  tallies t := by rw [deed.book_tally, List.countP_append, h.tallies]
  bytes := by rw [deed.book_bytesWritten, List.map_append, List.sum_append, h.bytes]
  leaves := by rw [deed.book_leavesEnded, h.leaves]

/-- The events around the walk. They tell of nothing that is counted. -/
inductive Framing (report : Report) : Event → Prop
  | started (root : AssetPath) (dest : String) (force : Bool) :
      Framing report (.started root dest force)
  | nothing (root : AssetPath) : Framing report (.nothingToExtract root)
  | closing : Framing report (closing report)

theorem balanced_nil : Balanced [] 0 {} :=
  ⟨rfl, rfl, fun t => by cases t <;> rfl, rfl, rfl⟩

theorem Framing.quiet {e : Event} (h : Framing report e) :
    ¬ e.Troubling ∧ (∀ t : Tally, e.message ≠ t.message) ∧ e.copiedBytes = 0 := by
  refine ⟨?_, fun t => ?_, ?_⟩
  · cases h <;> simp [Event.Troubling, Event.level, Extraction.closing]
  · cases h <;> cases t <;> simp [Event.message, Tally.message, Extraction.closing]
  · cases h <;> rfl

theorem Balanced.note (h : Balanced own leaves report) {e : Event} (he : Framing report e) :
    Balanced (own ++ [e]) leaves report := by
  obtain ⟨htrouble, hmessage, hbytes⟩ := he.quiet
  exact {
    warnings := h.warnings
    troubles := by simp [h.troubles, htrouble]
    tallies := fun t => by simp [h.tallies, hmessage]
    bytes := by simp [h.bytes, hbytes]
    leaves := h.leaves }

end Balance

/-! ## A run -/

/-- What the source noticed when a task was planned. -/
def Task.heard : Task → List Event
  | noticed events => events
  | _ => []

/-- The events of a run that are the source's: what it noticed while it was
asked for names. -/
def sourceEvents (s : LiveSource) (config : ExtractConfig) (dest : Destination) (disk : Disk) :
    List Event :=
  match s.list { disk := disk } config.sourceRoot with
  | (.error _, events) | (.ok [], events) => events
  | (.ok (name :: names), events) =>
    events ++ (planRun s config dest.path (name :: names)
      (opening config dest disk events)).flatMap Task.heard

/-- A run whose events are those that were heard and others that agree with its
report. -/
def Accounted (heard : List Event) (r : Run) : Prop :=
  ∃ own, r.events.Perm (heard ++ own) ∧ Balanced own (begun r.progress).length r.report

section Run

variable {s : LiveSource} {config : ExtractConfig} {base : HostPath} {heard : List Event} {r : Run}

theorem Task.deed_heard (t : Task) : (t.deed s config base r).heard = t.heard := by
  have hdirectory (dest : HostPath) : (directoryDeed dest r).heard = [] := by
    unfold directoryDeed
    split
    · rfl
    · split <;> rfl
  cases t with
  | noticed | unlistable | invalidName => rfl
  | directory place => exact hdirectory _
  | leaf path place =>
      rw [Task.deed]
      split
      · cases config.emptyDirectories with
        | skip => rfl
        | create => exact hdirectory _
      · unfold leafDeed
        split
        · rfl
        · rfl
        · rfl
        · split <;> rfl

theorem Accounted.perform (h : Accounted heard r) (t : Task) :
    Accounted (heard ++ t.heard) (t.perform s config base r) := by
  obtain ⟨own, hevents, hbalanced⟩ := h
  have hrecorded := t.perform_recorded s config base r
  refine ⟨own ++ (t.deed s config base r).emitted, ?_, ?_⟩
  · rw [hrecorded.events, t.deed_heard]
    -- What was heard last moves in front of what the run noted before it.
    have hswap : (own ++ t.heard).Perm (t.heard ++ own) := List.perm_append_comm
    have h := (hevents.append_right t.heard).trans
      (List.append_assoc heard own _ ▸ hswap.append_left heard)
    have h := h.append_right (t.deed s config base r).emitted
    simpa only [List.append_assoc] using h
  · rw [hrecorded.leaves, List.length_append, hrecorded.report]
    exact hbalanced.book _

theorem Accounted.performAll (h : Accounted heard r) (tasks : List Task) :
    Accounted (heard ++ tasks.flatMap Task.heard) (performAll s config base tasks r) := by
  induction tasks generalizing heard r with
  | nil =>
      rw [List.flatMap_nil, List.append_nil]
      exact h
  | cons t tasks ih =>
      rw [List.flatMap_cons, ← List.append_assoc]
      exact ih (h.perform t)

theorem Accounted.note (h : Accounted heard r) {e : Event} (he : Framing r.report e) :
    Accounted heard (r.note e) := by
  obtain ⟨own, hevents, hbalanced⟩ := h
  refine ⟨own ++ [e], ?_, hbalanced.note he⟩
  show (r.events ++ [e]).Perm _
  rw [← List.append_assoc]
  exact hevents.append_right [e]

theorem accounted_opening (config : ExtractConfig) (dest : Destination) (disk : Disk)
    (events : List Event) : Accounted events (opening config dest disk events) := by
  have hheard : Accounted events (({ disk := disk } : Run).noteAll events) := by
    refine ⟨[], ?_, balanced_nil⟩
    show ([] ++ events).Perm (events ++ [])
    rw [List.nil_append, List.append_nil]
  exact hheard.note (.started _ _ _)

theorem Accounted.finish (h : Accounted heard r) :
    ∃ own, (finish r).events.Perm (heard ++ own) ∧
      Balanced own (begun (finish r).progress).length r.report := by
  obtain ⟨own, hevents, hbalanced⟩ := h.note .closing
  refine ⟨own, hevents, ?_⟩
  show Balanced own (begun (r.progress ++ [.done])).length r.report
  rw [begun_append]
  exact (List.append_nil (begun r.progress)).symm ▸ hbalanced

theorem accounted_planRun_nil (h : Accounted heard r) :
    Accounted heard (performAll s config base (planRun s config base [] r) r) := by
  have hnothing : Accounted heard (r.note (.nothingToExtract config.sourceRoot)) :=
    h.note (.nothing _)
  rw [planRun]
  cases config.sourceRoot.fileName? with
  | none => exact hnothing
  | some name =>
      simp only []
      split
      · exact hnothing
      · have hleaf : Accounted (heard ++ [])
            (Task.perform s config base (.leaf config.sourceRoot ⟨[name]⟩) r) := h.perform _
        rw [List.append_nil] at hleaf
        exact hleaf

end Run

/-- At the end of a run its report accounts for everything that it noted and for
every leaf that it began. -/
theorem runLive_accounts (s : LiveSource) (config : ExtractConfig) (dest : Destination)
    (disk : Disk) {report : Report} (h : (runLive s config dest disk).result = .ok report) :
    ∃ own, (runLive s config dest disk).events.Perm (sourceEvents s config dest disk ++ own) ∧
      Balanced own (begun (runLive s config dest disk).progress).length report := by
  match hlist : s.list { disk := disk } config.sourceRoot with
  | (.error e, events) =>
      rw [runLive_of_error hlist] at h
      cases h
  | (.ok names, events) =>
      rw [runLive_of_list hlist] at h ⊢
      obtain rfl := Except.ok.inj h
      have hstart := accounted_opening config dest disk events
      unfold sourceEvents
      rw [hlist]
      cases names with
      | nil => exact (accounted_planRun_nil hstart).finish
      | cons name names => exact (hstart.performAll _).finish

theorem runLive_accounts_hostile :
    ∃ report own, (runLive hostileSource {} ⟨["out"]⟩ Disk.small).result = .ok report ∧
      (runLive hostileSource {} ⟨["out"]⟩ Disk.small).events.Perm
        (sourceEvents hostileSource {} ⟨["out"]⟩ Disk.small ++ own) ∧
      Balanced own (begun (runLive hostileSource {} ⟨["out"]⟩ Disk.small).progress).length
        report := by
  have hlist : hostileSource.list { disk := Disk.small } ({} : ExtractConfig).sourceRoot =
      (.ok ["..", "a/b", "", "\x00", "f", "f"], []) := rfl
  have hrun : runLive hostileSource {} ⟨["out"]⟩ Disk.small = finish _ := runLive_of_list hlist
  have hresult := congrArg Outcome.result hrun
  obtain ⟨own, hevents, hbalanced⟩ :=
    runLive_accounts hostileSource {} ⟨["out"]⟩ Disk.small hresult
  exact ⟨_, own, hresult, hevents, hbalanced⟩

end Extraction

end AssetUnpack
