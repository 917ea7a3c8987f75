import AssetUnpack.Proofs.Extraction.Accounts
import AssetUnpack.Proofs.Extraction.Containment
import AssetUnpack.Proofs.Extraction.Listing
import AssetUnpack.Proofs.Stream.Delivery

/-!
# Runs that only the walk can fail

Suppose that every leaf opens and can be read to its end, that nothing stands below the
destination when a run starts, and that all the run asks of the disk is done. Then what
is left to go wrong is the walk itself: nodes that cannot be listed, and texts listed
that are no names. Both are found by a listing too, and so the report counts exactly
the failures that the manifest counts.

`Unhindered` is the invariant: so far all warnings are of the walk, and below the
destination there is nothing that would take no bytes.
-/

namespace AssetUnpack

/-- Whether a listing from a node comes to a leaf, or the node is one itself. -/
def Source.HasLeaf (s : Source) (disk : Disk) (start path : AssetPath) : Prop :=
  (path = start ∧ (s.list disk start).1 = .ok []) ∨
    ∃ m, (Manifest.ofSource s disk start).1 = .ok m ∧ path ∈ m.leaves

namespace Extraction

open Disk (pathOf)

/-- Whether an asset opens at any time, and whoever copies it then gets to its end. -/
def LiveSource.Readable (s : LiveSource) (path : AssetPath) : Prop :=
  ∀ r, ∃ content, s.openAsset r path = .ok content ∧
    ∀ disk, ((content disk).deliver Copy.bufferSize).2 = none

/-! ## Calls that are done -/

/-- Whether a disk does what it is asked. -/
def DiskCall.Done (d : Disk) : DiskCall → Prop
  | createFile path => ∃ made, d.createFile path = .ok made
  | makeDirectories path => (d.makeDirectories path).1 = none
  | write _ _ => True

/-- Whether a disk does all that it is asked, one thing after the other. -/
def AllDone (d : Disk) : List DiskCall → Prop
  | [] => True
  | c :: cs => c.Done d ∧ AllDone (c.carryOut d) cs

theorem allDone_append {d : Disk} {cs cs' : List DiskCall} :
    AllDone d (cs ++ cs') ↔ AllDone d cs ∧ AllDone (replay d cs) cs' := by
  induction cs generalizing d with
  | nil => exact (iff_of_eq (true_and _)).symm
  | cons c cs ih =>
      rw [List.cons_append, AllDone, AllDone, ih, and_assoc]
      rfl

/-- What is asked for an open name at which nothing stands is done. -/
theorem Asked.allDone {d : Disk} {parent : Place} {name : String} {force : Bool}
    {cs : List DiskCall} (hp : d.Plain parent name) (ho : d.Opens parent name)
    (hnone : d.get? (parent ++ [name]) = none)
    (h : Asked force ⟨pathOf (parent ++ [name])⟩ d cs) : AllDone d cs := by
  cases h with
  | nothing => trivial
  | directory =>
      have hmake := hp.makeDirectories ho
      rw [hnone] at hmake
      exact ⟨congrArg Prod.fst hmake, trivial⟩
  | refused hcreate =>
      have hdir := hp.createFile_error ho hcreate
      rw [hnone] at hdir
      cases hdir
  | file bytes hcreate => exact ⟨⟨_, hcreate⟩, trivial, trivial⟩

section Calls

variable (s : LiveSource) (config : ExtractConfig) (base : HostPath)

theorem Task.calls_prefix (t : Task) (r : Run) :
    r.calls <+: (t.perform s config base r).calls := by
  cases hplace : t.place? with
  | none =>
      obtain ⟨-, hcalls⟩ := Task.perform_of_none s config base hplace r
      exact ⟨[], by rw [hcalls, List.append_nil]⟩
  | some place =>
      obtain ⟨cs, -, hcalls, -⟩ := Task.perform_advances s config base hplace r
      rw [hcalls]
      exact List.prefix_append _ _

theorem calls_prefix_performAll (tasks : List Task) (r : Run) :
    r.calls <+: (performAll s config base tasks r).calls :=
  performAll_induction (P := fun r' => r.calls <+: r'.calls)
    (fun t _ r' h => h.trans (t.calls_prefix s config base r')) (List.prefix_refl _)

end Calls

/-! ## One task -/

section Task

variable {s : LiveSource} {config : ExtractConfig} {path : AssetPath} {r : Run}
  {parent : Place} {name : String}

/-- A readable leaf is copied or left alone, where files can be created. -/
theorem copyLeaf_of_done (hp : r.disk.Plain parent name)
    (hs : r.disk.Opens parent name ∨ r.disk.Barred (parent ++ [name]))
    (hdevice : ∀ dev, r.disk.get? (parent ++ [name]) ≠ some (.device dev))
    (hread : s.Readable path)
    (hdone : ∀ cs, (copyLeaf s config path ⟨pathOf (parent ++ [name])⟩ r).2.calls =
      r.calls ++ cs → AllDone r.disk cs) :
    (copyLeaf s config path ⟨pathOf (parent ++ [name])⟩ r).1 = .ok .alreadyExists ∨
      ∃ count, (copyLeaf s config path ⟨pathOf (parent ++ [name])⟩ r).1 = .ok (.copied count) := by
  obtain ⟨content, hopen, hend⟩ := hread r
  have hcopy := copyLeaf_copying s config path ⟨pathOf (parent ++ [name])⟩ r
  generalize copyLeaf s config path ⟨pathOf (parent ++ [name])⟩ r = out at hcopy hdone ⊢
  cases hcopy with
  | present => exact Or.inl rfl
  | unopened _ hopen' =>
      rw [hopen] at hopen'
      cases hopen'
  | uncreated _ _ hcreate =>
      obtain ⟨⟨made, hmade⟩, -⟩ := hdone [.createFile _] rfl
      rw [hcreate] at hmade
      cases hmade
  | written _ hopen' hcreate hout houtcome =>
      -- The file was created, so the name was open, and what stands there keeps all bytes.
      have ho : r.disk.Opens parent name := by
        refine hs.resolve_right fun hb => ?_
        obtain ⟨err, herr⟩ := hp.createFile_of_barred hb
        rw [herr] at hcreate
        cases hcreate
      obtain ⟨rfl, rfl⟩ := hp.createFile_ok ho hcreate
      rw [hopen] at hopen'
      obtain rfl := Except.ok.inj hopen'
      have htakes : (r.disk.keep (parent ++ [name]) []).get? (parent ++ [name]) ≠
          some (.device .full) := fun hfull =>
        hdevice _ (Disk.get?_keep_other (Disk.place_ne_nil parent name) hfull (by simp))
      rw [Disk.writerAt_eq_keeping htakes] at hout
      obtain ⟨count, hcount⟩ := Copy.transfer_keeping_ok
        (content (r.disk.keep (parent ++ [name]) [])) (hend _) (.start ()) 0 0
      rcases houtcome with ⟨n, -, rfl⟩ | ⟨e, he, -⟩
      · exact Or.inr ⟨n, rfl⟩
      · rw [hout, Copy.run, hcount] at he
        cases he

theorem directoryDeed_of_done {dest : HostPath}
    (hdone : ∀ cs, (ensureDirectory dest r).calls = r.calls ++ cs → AllDone r.disk cs) :
    (directoryDeed dest r).warning? = none := by
  unfold ensureDirectory at hdone
  unfold directoryDeed
  split
  · rfl
  · next hnone =>
      rw [if_neg hnone] at hdone
      split
      · rfl
      · next e hmake =>
          have hpair : r.disk.makeDirectories dest = (some e, (r.disk.makeDirectories dest).2) :=
            Prod.ext hmake rfl
          rw [hpair] at hdone
          obtain ⟨hfine, -⟩ := hdone [.makeDirectories dest] rfl
          rw [DiskCall.Done, hmake] at hfine
          cases hfine

end Task

/-! ## The run -/

/-- What holds of a run into `base` in which nothing but the walk has failed. -/
structure Unhindered (d₀ : Disk) (base : Place) (known : List AssetPath) (r : Run) : Prop where
  underway : Underway d₀ base known r
  history : r.disk = replay d₀ r.calls
  noDevice : ∀ (q : AssetPath) dev, r.disk.get? (q.below base) ≠ some (.device dev)
  counted : r.report.nodesFailed = r.report.warnings.length
  ofWalk : ∀ w ∈ r.report.warnings, w.OfWalk

section Run

variable {s : LiveSource} {config : ExtractConfig} {d₀ : Disk} {base : Place}
  {known : List AssetPath} {r : Run} {t : Task}

theorem Laid.noDevice {parent : Place} {name : String} {d d' : Disk} (h : Laid parent name d d')
    {place : Place} (hbefore : ∀ dev, d.get? place ≠ some (.device dev)) (dev : Device) :
    d'.get? place ≠ some (.device dev) := by
  have hne := Disk.place_ne_nil parent name
  by_cases hplace : place = parent ++ [name]
  · subst hplace
    rcases h with rfl | ⟨-, rfl | ⟨bytes, rfl⟩⟩
    · exact hbefore dev
    · cases he : d.get? (parent ++ [name]) with
      | none =>
          rw [Disk.get?_house_of_none hne he]
          simp
      | some e =>
          rw [Disk.house_of_some he]
          exact hbefore dev
    · rcases Disk.get?_keep_self hne d bytes with heq | ⟨number, heq⟩
      · rw [heq]
        exact hbefore dev
      · rw [heq]
        simp
  · rw [h.get?_of_ne hplace]
    exact hbefore dev

/-- Whether a task lays out a leaf that is readable, if it lays out a leaf. -/
def Task.Smooth (s : LiveSource) (kind : AssetPath → Option NodeKind) : Task → Prop
  | leaf path _ => kind path ≠ some .directory → s.Readable path
  | _ => True

theorem Unhindered.leaf_unwarned (h : Unhindered d₀ base known r) {path : AssetPath}
    {names : List Name} {n : Name} (hmem : (⟨names⟩ : AssetPath) ∈ known)
    (hread : s.kind r path ≠ some .directory → s.Readable path)
    (hdone : ∀ cs, ((Task.leaf path ⟨names ++ [n]⟩).perform s config ⟨pathOf base⟩ r).calls =
      r.calls ++ cs → AllDone r.disk cs) :
    ((Task.leaf path ⟨names ++ [n]⟩).deed s config ⟨pathOf base⟩ r).warning? = none := by
  have hcalls := extractLeaf_calls s config path
    ((⟨pathOf base⟩ : HostPath).under ⟨names ++ [n]⟩) r
  rw [Task.perform] at hdone
  rw [hcalls] at hdone
  rw [Task.deed]
  by_cases hdir : s.kind r path = some .directory
  · rw [if_pos hdir] at hdone ⊢
    cases hempty : config.emptyDirectories with
    | skip => rfl
    | create =>
        rw [hempty] at hdone
        exact directoryDeed_of_done hdone
  · -- A copy: its calls are those of the task, and its place is one below the base.
    rw [if_neg hdir] at hdone ⊢
    rw [h.underway.free.under, AssetPath.below_snoc] at hdone ⊢
    have hdevice : ∀ dev,
        r.disk.get? (AssetPath.below ⟨names⟩ base ++ [n.text]) ≠ some (.device dev) := by
      rw [← AssetPath.below_snoc]
      exact h.noDevice ⟨names ++ [n]⟩
    rcases copyLeaf_of_done (r := beginLeaf path r) (h.underway.free.plain names n)
      (h.underway.opens_or_barred hmem n) hdevice (hread hdir) hdone with hres | ⟨count, hres⟩
    · rw [hres]
      rfl
    · rw [hres]
      rfl

/-- A task that is done in full has no warning but one of the walk. -/
theorem Task.warning_ofWalk {kind : AssetPath → Option NodeKind}
    (hkind : ∀ r path, s.kind r path = kind path) (h : Unhindered d₀ base known r)
    (hw : t.Within known) (hsmooth : t.Smooth s kind)
    (hdone : ∀ cs, (t.perform s config ⟨pathOf base⟩ r).calls = r.calls ++ cs →
      AllDone r.disk cs) {w : Warning}
    (hwarning : (t.deed s config ⟨pathOf base⟩ r).warning? = some w) : w.OfWalk := by
  cases t with
  | noticed events => cases hwarning
  | unlistable path e =>
      obtain rfl := Option.some.inj hwarning
      exact ofWalk_failedToList path e
  | invalidName parent name e =>
      obtain rfl := Option.some.inj hwarning
      exact ofWalk_invalidName parent name
  | directory place =>
      have hnone : (directoryDeed ((⟨pathOf base⟩ : HostPath).under place) r).warning? = none :=
        directoryDeed_of_done hdone
      rw [Task.deed, hnone] at hwarning
      cases hwarning
  | leaf path place =>
      obtain ⟨names, n, rfl, hmem⟩ := hw place rfl
      have hread : s.kind r path ≠ some .directory → s.Readable path := by
        rw [hkind r path]
        exact hsmooth
      rw [h.leaf_unwarned hmem hread hdone] at hwarning
      cases hwarning

theorem Unhindered.perform {kind : AssetPath → Option NodeKind}
    (hkind : ∀ r path, s.kind r path = kind path) (h : Unhindered d₀ base known r)
    (hw : t.Within known) (hsmooth : t.Smooth s kind)
    (hdone : AllDone d₀ (t.perform s config ⟨pathOf base⟩ r).calls) :
    Unhindered d₀ base (t.seeTo known) (t.perform s config ⟨pathOf base⟩ r) := by
  have hunder := h.underway.perform s config hw
  have hrecorded := t.perform_recorded s config ⟨pathOf base⟩ r
  have hnow : ∀ cs, (t.perform s config ⟨pathOf base⟩ r).calls = r.calls ++ cs →
      AllDone r.disk cs := by
    intro cs hcs
    rw [hcs, allDone_append, ← h.history] at hdone
    exact hdone.2
  have hcounted : (t.perform s config ⟨pathOf base⟩ r).report.nodesFailed =
      (t.perform s config ⟨pathOf base⟩ r).report.warnings.length := by
    rw [hrecorded.report, Deed.book_nodesFailed, Deed.book_warnings, List.length_append,
      h.counted]
  have hofWalk : ∀ w ∈ (t.perform s config ⟨pathOf base⟩ r).report.warnings, w.OfWalk := by
    intro w hmem
    rw [hrecorded.report, Deed.book_warnings] at hmem
    rcases List.mem_append.mp hmem with hmem | hmem
    · exact h.ofWalk w hmem
    · exact Task.warning_ofWalk hkind h hw hsmooth hnow (Option.mem_toList.mp hmem)
  cases hplace : t.place? with
  | none =>
      obtain ⟨hdisk, hcalls⟩ := Task.perform_of_none s config ⟨pathOf base⟩ hplace r
      exact ⟨hunder, by rw [hdisk, hcalls, h.history], by rw [hdisk]; exact h.noDevice,
        hcounted, hofWalk⟩
  | some place =>
      obtain ⟨names, n, rfl, hmem⟩ := hw place hplace
      obtain ⟨cs, -, hcalls, hdisk⟩ := Task.asked h.underway.free s config hplace
      have hlaid := Task.laid h.underway.free s config hplace (h.underway.opens_or_barred hmem n)
      refine ⟨hunder, ?_, fun q => hlaid.noDevice (h.noDevice q), hcounted, hofWalk⟩
      rw [hdisk, hcalls, replay_append, ← h.history]

theorem Unhindered.performAll {kind : AssetPath → Option NodeKind}
    (hkind : ∀ r path, s.kind r path = kind path) (h : Unhindered d₀ base known r)
    {tasks : List Task} (ho : Ordered known tasks) (hsmooth : ∀ t ∈ tasks, t.Smooth s kind)
    (hdone : AllDone d₀ (performAll s config ⟨pathOf base⟩ tasks r).calls) :
    ∃ known', Unhindered d₀ base known' (performAll s config ⟨pathOf base⟩ tasks r) := by
  induction tasks generalizing known r with
  | nil => exact ⟨known, h⟩
  | cons t tasks ih =>
      have hfirst : AllDone d₀ (t.perform s config ⟨pathOf base⟩ r).calls := by
        obtain ⟨cs, hcs⟩ := calls_prefix_performAll s config ⟨pathOf base⟩ tasks
          (t.perform s config ⟨pathOf base⟩ r)
        have hall : AllDone d₀ ((t.perform s config ⟨pathOf base⟩ r).calls ++ cs) := by
          rw [hcs]
          exact hdone
        exact (allDone_append.mp hall).1
      exact ih (h.perform hkind ho.1 (hsmooth t List.mem_cons_self) hfirst) ho.2
        (fun u hu => hsmooth u (List.mem_cons_of_mem _ hu)) hdone

theorem unhindered_opening (hfree : d₀.LinkFreeAt base)
    (hempty : ∀ q : AssetPath, q ≠ .root → d₀.get? (q.below base) = none)
    (config : ExtractConfig) (dest : Destination) (events : List Event) :
    Unhindered d₀ base [.root] (opening config dest d₀ events) := by
  refine ⟨underway_opening hfree config dest events, rfl, fun q dev => ?_, rfl,
    fun w hw => by cases hw⟩
  show d₀.get? (q.below base) ≠ _
  by_cases hroot : q = .root
  · rw [hroot, AssetPath.below_root, hfree.directory]
    simp
  · rw [hempty q hroot]
    simp

end Run

/-! ## Both walks -/

/-- The leaves that a run sets out to copy are leaves of the listing. -/
theorem planRun_smooth {s : Source} {live : LiveSource} (hs : SameNodes s live)
    (config : ExtractConfig) (base : HostPath) (d : Disk) {names : List String}
    {events : List Event} (hlist : s.list d config.sourceRoot = (.ok names, events))
    (r₀ : Run) (hlive : (live.list r₀ config.sourceRoot).1 = .ok names) (r : Run)
    (hread : ∀ path, s.HasLeaf d config.sourceRoot path → live.Readable path) :
    ∀ t ∈ planRun live config base names r, t.Smooth live (s.kind d) := by
  intro t ht
  cases t with
  | noticed | unlistable | invalidName | directory => trivial
  | leaf path place =>
      intro hkind
      refine hread path ?_
      cases hnames : names with
      | nil =>
          rw [hnames] at ht hlist
          have hpath : path = config.sourceRoot := by
            rw [planRun] at ht
            split at ht
            · simp at ht
            · split at ht
              · simp at ht
              · simp only [List.mem_singleton, Task.leaf.injEq] at ht
                exact ht.1
          exact Or.inl ⟨hpath, by rw [hlist]⟩
      | cons name rest =>
          obtain ⟨manifest, hmanifest, hleaves, -⟩ :=
            planRun_lists hs config base d hlist r₀ hlive r
          refine Or.inr ⟨manifest, hmanifest, ?_⟩
          rw [hleaves (by rw [hnames]; simp)]
          exact List.mem_filterMap.mpr ⟨_, ht, if_neg hkind⟩

/-- A run that only the walk can fail has as many failures as the listing of the same
node, and where there is a listing, the run goes through. -/
theorem runLive_nodesFailed {s : Source} {live : LiveSource} (hs : SameNodes s live)
    (config : ExtractConfig) (dest : Destination) (d disk : Disk)
    (hfree : disk.LinkFreeAt dest.place)
    (hempty : ∀ q : AssetPath, q ≠ .root → disk.get? (q.below dest.place) = none)
    (hread : ∀ path, s.HasLeaf d config.sourceRoot path → live.Readable path)
    (hdone : AllDone disk (runLive live config dest disk).calls) {manifest : Manifest}
    (hlisted : (Manifest.ofSource s d config.sourceRoot).1 = .ok manifest) :
    ∃ report, (runLive live config dest disk).result = .ok report ∧
      report.nodesFailed = manifest.nodesFailed := by
  match hlist : live.list { disk := disk } config.sourceRoot with
  | (.error e, events) =>
      obtain ⟨events', hlist'⟩ := hs.list_eq d hlist
      rw [Manifest.ofSource_of_error hlist'] at hlisted
      cases hlisted
  | (.ok names, events) =>
      obtain ⟨events', hlist'⟩ := hs.list_eq d hlist
      have hkind : ∀ r path, live.kind r path = s.kind d path :=
        fun r path => (hs.kind d r path).symm
      have hlive : (live.list { disk := disk } config.sourceRoot).1 = .ok names := by rw [hlist]
      rw [runLive_of_list hlist] at hdone ⊢
      -- The failures are the warnings, these are all of the walk, and of those the plan decides.
      let r := opening config dest disk events
      let tasks := planRun live config dest.path names r
      obtain ⟨manifest', hmanifest, -, hfailed⟩ :=
        planRun_lists hs config dest.path d hlist' { disk := disk } hlive r
      obtain rfl := Except.ok.inj (hmanifest.symm.trans hlisted)
      obtain ⟨known, hend⟩ := (unhindered_opening hfree hempty config dest events).performAll hkind
        (planRun_ordered live config dest.path names r)
        (planRun_smooth hs config dest.path d hlist' { disk := disk } hlive r hread) hdone
      have hall := List.countP_eq_length.mpr fun w hw => decide_eq_true (hend.ofWalk w hw)
      have hwalked := (performAll_walked hkind config dest.path tasks r).2
      refine ⟨_, rfl, ?_⟩
      calc (performAll live config dest.path tasks r).report.nodesFailed
          = (performAll live config dest.path tasks r).report.warnings.length := hend.counted
        _ = (performAll live config dest.path tasks r).report.warnings.countP (·.OfWalk) :=
            hall.symm
        _ = tasks.countP Task.givesUp := hwalked.trans (Nat.zero_add _)
        _ = manifest'.nodesFailed := hfailed.symm

end Extraction

end AssetUnpack
