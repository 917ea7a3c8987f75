import AssetUnpack.Proofs.Extraction.Mirror
import AssetUnpack.Proofs.Extraction.Rerun

/-!
# A source that cannot tell what its nodes are

Where a source keeps to itself what its nodes are, a run takes every leaf for a
file until it fails to open it, and an empty directory for a leaf. It should come
to the same end as a run that is told and skips the empty directories.

Both runs make one plan, since a plan depends on listings alone. They stay level
(`Level`) task by task: the disk is the same, and so is every counter except two.
An empty directory that one run skips without a word is to the other a leaf, for
which something is there already or which cannot be opened, and either way it adds
one to what was skipped or unreadable. Nothing is said about the disk, which may
be full of links.
-/

namespace AssetUnpack

/-- Whether an empty directory is at a path. -/
def NodeTree.hasEmptyDirectory {α : Type} (t : NodeTree α) (p : AssetPath) : Bool :=
  match t.get? p with
  | some (.directory []) => true
  | _ => false

theorem NodeTree.hasEmptyDirectory_iff {α : Type} {t : NodeTree α} {p : AssetPath} :
    t.hasEmptyDirectory p = true ↔ t.get? p = some (.directory []) := by
  unfold hasEmptyDirectory
  split
  · next h => simp [h]
  · next h => exact ⟨Bool.noConfusion, fun hempty => (h hempty).elim⟩

namespace Extraction

/-- The empty directories below a starting node. -/
def emptyBelow (t : MemoryTree) (root : AssetPath) : List AssetPath :=
  (nodesBelow t root).filter fun q => t.hasEmptyDirectory (root.append q)

theorem mem_emptyBelow {t : MemoryTree} {root q : AssetPath} :
    q ∈ emptyBelow t root ↔ q ≠ .root ∧ t.get? (root.append q) = some (.directory []) := by
  rw [emptyBelow, List.mem_filter, mem_nodesBelow, NodeTree.hasEmptyDirectory_iff]
  constructor
  · rintro ⟨hbelow, hempty⟩
    exact ⟨hbelow.1, hempty⟩
  · rintro ⟨hne, hempty⟩
    exact ⟨⟨hne, by rw [hempty]; exact Option.some_ne_none _⟩, hempty⟩

theorem emptyBelow_nodup {t : MemoryTree} (ht : t.Consistent) (root : AssetPath) :
    (emptyBelow t root).Nodup :=
  (nodesBelow_nodup root ht).filter _

/-- Two reports that agree, except that the second counts `n` more leaves among
those that were skipped or could not be read. -/
structure Surplus (n : Nat) (report report' : Report) : Prop where
  filesCopied : report'.filesCopied = report.filesCopied
  directoriesCreated : report'.directoriesCreated = report.directoriesCreated
  nodesFailed : report'.nodesFailed = report.nodesFailed
  bytesWritten : report'.bytesWritten = report.bytesWritten
  warnings : report'.warnings = report.warnings
  passed : report'.filesSkipped + report'.leavesUnreadable = report.filesSkipped + n

/-- Two runs on one disk whose reports agree but for `n` leaves. -/
structure Level (n : Nat) (r r' : Run) : Prop where
  disk : r'.disk = r.disk
  report : Surplus n r.report r'.report

/-! ## One task -/

section Task

variable {n : Nat} {report report' : Report} {r r' : Run}

theorem Surplus.fail (h : Surplus n report report') (w : Warning) :
    Surplus n (report.fail w) (report'.fail w) :=
  ⟨h.filesCopied, h.directoriesCreated, congrArg (· + 1) h.nodesFailed, h.bytesWritten,
    congrArg (· ++ [w]) h.warnings, h.passed⟩

theorem Surplus.skip_one (h : Surplus n report report') :
    Surplus (n + 1) report { report' with filesSkipped := report'.filesSkipped + 1 } := by
  have hpassed := h.passed
  refine ⟨h.filesCopied, h.directoriesCreated, h.nodesFailed, h.bytesWritten, h.warnings, ?_⟩
  show report'.filesSkipped + 1 + report'.leavesUnreadable = _
  omega

theorem Surplus.unreadable_one (h : Surplus n report report') :
    Surplus (n + 1) report { report' with leavesUnreadable := report'.leavesUnreadable + 1 } :=
  ⟨h.filesCopied, h.directoriesCreated, h.nodesFailed, h.bytesWritten, h.warnings,
    congrArg (· + 1) h.passed⟩

/-- What a leaf counts that did not have to be opened, or could be, has nothing to
do with its kind. -/
theorem Surplus.leafReport (h : Surplus n report report') (path : AssetPath) (dest : HostPath)
    (kind kind' : Option NodeKind) (outcome : LeafOutcome) :
    Surplus n (leafReport path dest kind report (.ok outcome))
      (leafReport path dest kind' report' (.ok outcome)) := by
  cases outcome with
  | copied bytes =>
      exact ⟨congrArg (· + 1) h.filesCopied, h.directoriesCreated, h.nodesFailed,
        congrArg (· + bytes) h.bytesWritten, h.warnings, h.passed⟩
  | alreadyExists =>
      refine ⟨h.filesCopied, h.directoriesCreated, h.nodesFailed, h.bytesWritten, h.warnings, ?_⟩
      have hpassed := h.passed
      simp only [Extraction.leafReport]
      omega
  | writeFailed e => exact h.fail _

theorem Level.ensureDirectory (h : Level n r r') (dest : HostPath) :
    Level n (ensureDirectory dest r) (ensureDirectory dest r') := by
  unfold Extraction.ensureDirectory
  rw [h.disk]
  split
  · exact h
  · split
    · exact ⟨rfl, h.report.filesCopied, congrArg (· + 1) h.report.directoriesCreated,
        h.report.nodesFailed, h.report.bytesWritten, h.report.warnings, h.report.passed⟩
    · exact ⟨rfl, h.report.fail _⟩

variable {config config' : ExtractConfig} {path : AssetPath}

/-- How a copy goes depends on the disk, on force and on what opening the leaf
gives. -/
theorem copyLeaf_congr {s s' : LiveSource} (dest : HostPath)
    (hforce : config'.force = config.force) (hdisk : r'.disk = r.disk)
    (hopen : s'.openAsset r' path = s.openAsset r path) :
    (copyLeaf s' config' path dest r').1 = (copyLeaf s config path dest r).1 ∧
      (copyLeaf s' config' path dest r').2.disk = (copyLeaf s config path dest r).2.disk := by
  unfold copyLeaf
  rw [hforce, hdisk, hopen]
  split
  · exact ⟨rfl, hdisk⟩
  split
  · exact ⟨rfl, hdisk⟩
  split
  · exact ⟨rfl, rfl⟩
  · dsimp only
    split <;> exact ⟨rfl, rfl⟩

/-- A leaf that cannot be opened is either not needed or the error is passed on. -/
theorem copyLeaf_of_unopened {s : LiveSource} {e : IoError}
    (hopen : s.openAsset r path = .error e) (config : ExtractConfig) (dest : HostPath) :
    (copyLeaf s config path dest r).2 = r ∧
      ((copyLeaf s config path dest r).1 = .ok .alreadyExists ∨
        (copyLeaf s config path dest r).1 = .error e) := by
  have hcopy := copyLeaf_copying s config path dest r
  generalize copyLeaf s config path dest r = out at hcopy ⊢
  cases hcopy with
  | present => exact ⟨rfl, Or.inl rfl⟩
  | unopened _ hopen' =>
      rw [hopen] at hopen'
      exact ⟨rfl, Or.inr (congrArg _ (Except.error.inj hopen').symm)⟩
  | uncreated _ hopen' | written _ hopen' =>
      rw [hopen] at hopen'
      cases hopen'

/-- The same tree that keeps to itself what its nodes are. -/
abbrev unclassifiedSource (t : MemoryTree) : LiveSource := .ofSource (.ofMemory t false)

theorem unclassifiedSource_kind (t : MemoryTree) (r : Run) (p : AssetPath) :
    (unclassifiedSource t).kind r p = none := rfl

theorem unclassifiedSource_openAsset (t : MemoryTree) (r r' : Run) (p : AssetPath) :
    (unclassifiedSource t).openAsset r' p = (memorySource t).openAsset r p := rfl

variable {t : MemoryTree} {root q : AssetPath}

theorem Level.extractFile (h : Level n r r') (hforce : config'.force = config.force)
    {content : Bytes} (hleaf : t.get? path = some (.leaf content)) (dest : HostPath) :
    Level n (extractLeaf (memorySource t) config path dest r)
      (extractLeaf (unclassifiedSource t) config' path dest r') := by
  have hkind : (memorySource t).kind r path ≠ some .directory := by
    rw [memorySource_kind, NodeTree.kind?, hleaf]
    simp
  have hkind' : (unclassifiedSource t).kind r' path ≠ some .directory := by
    simp [unclassifiedSource_kind]
  have hbegun : (beginLeaf path r').disk = (beginLeaf path r).disk := h.disk
  obtain ⟨hresult, hdisk⟩ := copyLeaf_congr dest hforce hbegun
    (unclassifiedSource_openAsset t (beginLeaf path r) (beginLeaf path r') path)
  constructor
  · rw [extractLeaf_disk, extractLeaf_disk, if_neg hkind, if_neg hkind', hdisk]
  · rw [extractLeaf_report hkind, extractLeaf_report hkind', hresult]
    -- A file can be opened, so the copy did not end because it could not.
    have hopens : ∀ e, (copyLeaf (memorySource t) config path dest (beginLeaf path r)).1 ≠
        .error e := by
      intro e
      have hcopy := copyLeaf_copying (memorySource t) config path dest (beginLeaf path r)
      generalize copyLeaf (memorySource t) config path dest (beginLeaf path r) = out at hcopy ⊢
      cases hcopy with
      | present | uncreated | written => simp
      | unopened hgo hopen =>
          have hfound : (memorySource t).openAsset (beginLeaf path r) path =
              (t.leafAt path).map fun content _ => .ofBytes content := rfl
          rw [hfound, NodeTree.leafAt, hleaf] at hopen
          cases hopen
    cases hout : (copyLeaf (memorySource t) config path dest (beginLeaf path r)).1 with
    | ok outcome => exact h.report.leafReport path dest _ _ outcome
    | error e => exact absurd hout (hopens e)

/-- An empty directory is skipped by the run that is told what it is, and is a leaf
without content to the other. -/
theorem Level.extractEmpty (h : Level n r r') (hpolicy : config.emptyDirectories = .skip)
    (hempty : t.get? path = some (.directory [])) (dest : HostPath) :
    Level (n + 1) (extractLeaf (memorySource t) config path dest r)
      (extractLeaf (unclassifiedSource t) config' path dest r') := by
  have hkind : (memorySource t).kind r path = some .directory := by
    rw [memorySource_kind, NodeTree.kind?, hempty]
    rfl
  have hkind' : (unclassifiedSource t).kind r' path ≠ some .directory := by
    simp [unclassifiedSource_kind]
  have hdisk := extractLeaf_disk (memorySource t) config path dest r
  have hreport := extractLeaf_report_of_directory hkind config dest
  rw [if_pos hkind, hpolicy] at hdisk
  rw [hpolicy] at hreport
  have hdisk' := extractLeaf_disk (unclassifiedSource t) config' path dest r'
  have hreport' := extractLeaf_report hkind' config' dest
  rw [if_neg hkind'] at hdisk'
  have hopen : (unclassifiedSource t).openAsset (beginLeaf path r') path =
      (t.leafAt path).map fun content _ => .ofBytes content := rfl
  rw [NodeTree.leafAt, hempty] at hopen
  obtain ⟨hsame, hout⟩ := copyLeaf_of_unopened hopen config' dest
  rw [hsame] at hdisk'
  refine ⟨by rw [hdisk, hdisk', beginLeaf_disk, h.disk], ?_⟩
  rw [hreport, hreport']
  rcases hout with hout | hout
  · rw [hout]
    exact h.report.skip_one
  · rw [hout, unclassifiedSource_kind]
    exact h.report.unreadable_one

/-- The task of a node keeps two runs level, and an empty directory among the nodes
is one leaf more. -/
theorem Level.perform (h : Level n r r') (hforce : config'.force = config.force)
    (hpolicy : config.emptyDirectories = .skip) (base : HostPath)
    (hnode : t.get? (root.append q) ≠ none) :
    Level (n + if t.hasEmptyDirectory (root.append q) then 1 else 0)
      ((taskAt t root q).perform (memorySource t) config base r)
      ((taskAt t root q).perform (unclassifiedSource t) config' base r') := by
  obtain ⟨node, hnode⟩ := Option.ne_none_iff_exists'.mp hnode
  have hempty : t.hasEmptyDirectory (root.append q) = true ↔ node = .directory [] := by
    rw [NodeTree.hasEmptyDirectory_iff, hnode, Option.some.injEq]
  cases node with
  | leaf content =>
      rw [if_neg (by simp [hempty]), taskAt_of_nil (NodeTree.children_of_leaf hnode)]
      exact h.extractFile hforce hnode _
  | directory names =>
      have hchildren := NodeTree.children_of_directory hnode
      cases names with
      | nil =>
          rw [if_pos (by simp [hempty]), taskAt_of_nil hchildren]
          exact h.extractEmpty hpolicy hnode _
      | cons m ms =>
          rw [if_neg (by simp [hempty]), taskAt_of_cons hchildren]
          exact h.ensureDirectory _

theorem Level.performAll (h : Level n r r') (hforce : config'.force = config.force)
    (hpolicy : config.emptyDirectories = .skip) (base : HostPath) {tasks : List Task}
    (hkinds : ∀ task ∈ tasks, (∃ events, task = .noticed events) ∨ ∃ q, task = taskAt t root q)
    (hnodes : ∀ q ∈ places tasks, t.get? (root.append q) ≠ none) :
    Level (n + (places tasks).countP fun q => t.hasEmptyDirectory (root.append q))
      (performAll (memorySource t) config base tasks r)
      (performAll (unclassifiedSource t) config' base tasks r') := by
  induction tasks generalizing n r r' with
  | nil => exact h
  | cons task tasks ih =>
      have hkinds' := fun u hu => hkinds u (List.mem_cons_of_mem _ hu)
      rcases hkinds task (by simp) with ⟨events, rfl⟩ | ⟨q, rfl⟩
      · have hplaces : places (.noticed events :: tasks) = places tasks :=
          List.filterMap_cons_none rfl
        rw [hplaces] at hnodes ⊢
        exact ih ⟨h.disk, h.report⟩ hkinds' hnodes
      · have hplaces : places (taskAt t root q :: tasks) = q :: places tasks :=
          List.filterMap_cons_some (taskAt_place? t _ q)
        rw [hplaces] at hnodes ⊢
        have hnext := h.perform hforce hpolicy base (hnodes q (by simp))
        have hrest := ih hnext hkinds' fun p hp => hnodes p (List.mem_cons_of_mem _ hp)
        rw [List.countP_cons, Nat.add_comm (List.countP _ _), ← Nat.add_assoc]
        exact hrest

end Task

/-! ## The run -/

/-- A run over a tree that keeps to itself what its nodes are ends like one over the
same tree that is told and skips empty directories. What is skipped or unreadable
to the one and not to the other are the empty directories. -/
theorem run_unclassified (t : MemoryTree) (ht : t.Built) (config : ExtractConfig)
    (hroot : t.children config.sourceRoot ≠ []) (dest : Destination) (disk : Disk) :
    (run (.ofMemory t false) config dest disk).disk =
        (run (.ofMemory t true) { config with emptyDirectories := .skip } dest disk).disk ∧
      ∃ report report',
        (run (.ofMemory t true) { config with emptyDirectories := .skip } dest disk).result =
            .ok report ∧
          (run (.ofMemory t false) config dest disk).result = .ok report' ∧
          report'.filesCopied = report.filesCopied ∧
          report'.directoriesCreated = report.directoriesCreated ∧
          report'.nodesFailed = report.nodesFailed ∧
          report'.bytesWritten = report.bytesWritten ∧
          report'.warnings = report.warnings ∧
          report'.filesSkipped + report'.leavesUnreadable =
            report.filesSkipped + (emptyBelow t config.sourceRoot).length := by
  have hc := ht.consistent
  obtain ⟨name, names, hchildren⟩ := List.exists_cons_of_ne_nil hroot
  have hmem : name ∈ t.children config.sourceRoot := by
    rw [hchildren]
    exact List.mem_cons_self
  have hdirectory := NodeTree.directory_of_mem hmem
  rw [hchildren] at hdirectory
  have hlist : (memorySource t).list { disk := disk } config.sourceRoot =
      (.ok ((name :: names).map (·.text)), []) := by
    rw [memorySource_list, hchildren]
  have hlist' : (unclassifiedSource t).list { disk := disk } config.sourceRoot =
      (.ok ((name :: names).map (·.text)), []) := hlist
  have hd : config.sourceRoot.depth < (memorySource t).depthLimit :=
    LiveSource.depth_lt_of_list (by rw [hlist]; rfl)
  -- Both runs make the plan of the run that is told what the nodes are.
  have hplan : planRun (unclassifiedSource t) config dest.path ((name :: names).map (·.text))
        (opening config dest disk []) =
      planRun (memorySource t) { config with emptyDirectories := .skip } dest.path
        ((name :: names).map (·.text)) (opening config dest disk []) := by
    have hd' : config.sourceRoot.depth < (unclassifiedSource t).depthLimit := hd
    rw [List.map_cons, planRun, planRun, dif_pos hd', dif_pos hd]
    exact planChildren_congr _ _ dest.path (fun _ _ _ => rfl) _ hd' hd _ _ _ _
  have hcovers := planRun_covers { config with emptyDirectories := .skip } dest.path hc hdirectory
    (opening config dest disk [])
  have hstart : Level 0 (opening config dest disk []) (opening config dest disk []) :=
    ⟨rfl, rfl, rfl, rfl, rfl, rfl, rfl⟩
  have hforce : config.force = { config with emptyDirectories := .skip : ExtractConfig }.force := rfl
  have hend := hstart.performAll hforce rfl dest.path hcovers.kinds
    fun q hq => ((hcovers.mem q).mp hq).2
  have hcount : (places (planRun (memorySource t) { config with emptyDirectories := .skip }
      dest.path ((name :: names).map (·.text)) (opening config dest disk []))).countP
        (fun q => t.hasEmptyDirectory (config.sourceRoot.append q)) =
      (emptyBelow t config.sourceRoot).length := by
    rw [emptyBelow, ← List.countP_eq_length_filter]
    exact (hcovers.perm config.sourceRoot hc).countP_eq _
  have hrun : run (.ofMemory t true) { config with emptyDirectories := .skip } dest disk =
      finish _ := runLive_of_list hlist
  have hrun' : run (.ofMemory t false) config dest disk = finish _ := runLive_of_list hlist'
  rw [hplan] at hrun'
  rw [hrun, hrun']
  refine ⟨hend.disk, _, _, rfl, rfl, hend.report.filesCopied, hend.report.directoriesCreated,
    hend.report.nodesFailed, hend.report.bytesWritten, hend.report.warnings, ?_⟩
  have hpassed := hend.report.passed
  rw [Nat.zero_add, hcount] at hpassed
  exact hpassed

/-- The small tree with an empty directory beside the other one. -/
def sparseTree : MemoryTree := smallTree.addChild .root ⟨"e", rfl⟩ (.directory [])

theorem sparseTree_built : sparseTree.Built := by
  have hparse : AssetPath.parse "e" = .ok ⟨[⟨"e", rfl⟩]⟩ := by rfl
  refine .directory smallTree_built "e" ?_
  unfold MemoryTree.insertDirectory
  rw [hparse]
  rfl

theorem run_unclassified_sparse :
    ∃ report report', (run (.ofMemory sparseTree true) {} ⟨["out"]⟩ Disk.small).result =
        .ok report ∧
      (run (.ofMemory sparseTree false) {} ⟨["out"]⟩ Disk.small).result = .ok report' ∧
      report'.filesCopied = report.filesCopied ∧
      report'.filesSkipped + report'.leavesUnreadable = report.filesSkipped + 1 := by
  have hroot : sparseTree.children ({} : ExtractConfig).sourceRoot ≠ [] := by decide
  have hempty : (emptyBelow sparseTree ({} : ExtractConfig).sourceRoot).length = 1 := by decide
  obtain ⟨-, report, report', hok, hok', hcopied, -, -, -, -, hpassed⟩ :=
    run_unclassified sparseTree sparseTree_built {} hroot ⟨["out"]⟩ Disk.small
  rw [hempty] at hpassed
  exact ⟨report, report', hok, hok', hcopied, hpassed⟩

end Extraction

end AssetUnpack
