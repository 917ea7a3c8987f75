import AssetUnpack.Proofs.Extraction.Accounts
import AssetUnpack.Proofs.Extraction.InStep
import AssetUnpack.Proofs.Extraction.Mirror

/-!
# What a clean report promises

A report is clean if no node failed, and one would like to conclude that every
file of the tree is at its place then. `run_clean` says how far that goes. Without
force a run leaves alone whatever stands at the place of a file, and does not look
what it is: a directory there passes for the file, and the report stays clean. In
every other case a regular file is there in the end.

Failures are only ever added up, so in a clean run no task failed. Every node has
one task, and the tasks before and behind it do nothing to its place. So it is
enough to look at the run when it is the node's turn (`Underway.turn`), and at one
file that is laid out without a failure (`Underway.file_of_clean`).
-/

namespace AssetUnpack.Extraction

open Disk (pathOf)

/-- A regular file at a place. -/
def Regular (e : Option DiskEntry) : Prop := ∃ number bytes, e = some (.file number bytes)

/-- What a clean run leaves at the place of a file, by what stood there. -/
structure Settles (force : Bool) (content : Bytes) (before after : Option DiskEntry) : Prop where
  /-- There is a regular file in the end unless something else stood there. -/
  regular : Regular after ↔ before = none ∨ Regular before
  /-- Without force what stood there is there as it was. -/
  kept : force = false → before ≠ none → after = before
  /-- What was written is the content. -/
  filled : force = true ∨ before = none → Regular after → ∃ number, after = some (.file number content)
  /-- With force a directory there would have been a failure. -/
  noDirectory : force = true → before ≠ some .directory

/-! ## Failures add up -/

section Failures

variable {s : LiveSource} {config : ExtractConfig} {base : HostPath}

theorem Task.perform_nodesFailed (t : Task) (r : Run) :
    (t.perform s config base r).report.nodesFailed =
      r.report.nodesFailed + (t.deed s config base r).warning?.toList.length := by
  rw [(t.perform_recorded s config base r).report, Deed.book_nodesFailed]

theorem nodesFailed_le_performAll (tasks : List Task) (r : Run) :
    r.report.nodesFailed ≤ (performAll s config base tasks r).report.nodesFailed := by
  refine performAll_induction (P := fun r' => r.report.nodesFailed ≤ r'.report.nodesFailed)
    (fun t _ r' h => ?_) (Nat.le_refl _)
  rw [t.perform_nodesFailed]
  exact Nat.le_add_right_of_le h

/-- Where nothing failed in the end, no task has a warning. -/
theorem Task.warning?_of_clean {t : Task} {tasks : List Task} {r : Run}
    (h : (performAll s config base (t :: tasks) r).report.nodesFailed = 0) :
    (t.deed s config base r).warning? = none := by
  have hle : (t.perform s config base r).report.nodesFailed ≤ 0 :=
    h ▸ nodesFailed_le_performAll tasks (t.perform s config base r)
  rw [t.perform_nodesFailed] at hle
  cases hw : (t.deed s config base r).warning? with
  | none => rfl
  | some w =>
      rw [hw] at hle
      simp at hle

end Failures

/-! ## The turn of a task -/

section Turn

variable {s : LiveSource} {config : ExtractConfig} {d₀ : Disk} {base : Place}
  {known : List AssetPath} {r : Run} {t : Task} {pre post : List Task}

/-- When it is a task's turn, its directory is known. -/
theorem Underway.turn (h : Underway d₀ base known r) (s : LiveSource) (config : ExtractConfig)
    (ho : Ordered known (pre ++ t :: post)) :
    ∃ known', Underway d₀ base known' (Extraction.performAll s config ⟨pathOf base⟩ pre r) ∧
      t.Within known' ∧ Ordered (t.seeTo known') post := by
  induction pre generalizing known r with
  | nil => exact ⟨known, h, ho.1, ho.2⟩
  | cons u pre ih => exact ih (h.perform s config ho.1) ho.2

theorem Ordered.of_append {ts us : List Task} (ho : Ordered known (ts ++ us)) :
    Ordered known ts := by
  induction ts generalizing known with
  | nil => trivial
  | cons t ts ih => exact ⟨ho.1, ih ho.2⟩

/-- Tasks for other places leave a place alone. -/
theorem Underway.performAll_elsewhere (h : Underway d₀ base known r) (s : LiveSource)
    (config : ExtractConfig) {tasks : List Task} (ho : Ordered known tasks) {q : AssetPath}
    (hq : q ∉ places tasks) :
    (Extraction.performAll s config ⟨pathOf base⟩ tasks r).disk.get? (q.below base) =
      r.disk.get? (q.below base) := by
  refine h.performAll_at (P := fun e => e = r.disk.get? (q.below base)) ho
    (fun t ht known r₁ h₁ hw hsofar => ?_) rfl
  refine (h₁.get?_of_ne s config hw fun p hplace heq => ?_).trans hsofar
  rw [AssetPath.below_injective heq] at hq
  exact hq (List.mem_filterMap.mpr ⟨t, ht, hplace⟩)

end Turn

/-! ## One file -/

section File

variable {s : LiveSource} {config : ExtractConfig} {parent : Place} {name : String}
  {path : AssetPath} {content : Bytes} {r : Run}

/-- The copy of a file that goes well. -/
theorem copyLeaf_settles (hp : r.disk.Plain parent name)
    (hs : r.disk.Opens parent name ∨ r.disk.Barred (parent ++ [name]))
    (hopen : s.openAsset r path = .ok fun _ => .ofBytes content)
    (hwell : ∀ e, (copyLeaf s config path ⟨pathOf (parent ++ [name])⟩ r).1 ≠
      .ok (.writeFailed e)) :
    Settles config.force content (r.disk.get? (parent ++ [name]))
      ((copyLeaf s config path ⟨pathOf (parent ++ [name])⟩ r).2.disk.get? (parent ++ [name])) := by
  have hne := Disk.place_ne_nil parent name
  have ho : r.disk.Opens parent name := by
    refine hs.resolve_right fun hb => ?_
    rcases copyLeaf_of_barred s config path hp hb with ⟨e, hopen', -⟩ | ⟨_, e, -, hout⟩
    · rw [hopen] at hopen'
      cases hopen'
    · exact hwell e hout
  by_cases hskip : config.force = false ∧ r.disk.get? (parent ++ [name]) ≠ none
  · rw [copyLeaf_of_present hp ho hskip.1 hskip.2]
    refine ⟨⟨Or.inr, fun h => h.resolve_left hskip.2⟩, fun _ _ => rfl, fun hgo => ?_, fun hgo => ?_⟩
    · rcases hgo with hgo | hgo
      · rw [hskip.1] at hgo
        cases hgo
      · exact absurd hgo hskip.2
    · rw [hskip.1] at hgo
      cases hgo
  have hgo : config.force = false → r.disk.get? (parent ++ [name]) = none := fun hforce =>
    Decidable.not_not.mp fun hthere => hskip ⟨hforce, hthere⟩
  have hkept (hroom : ∀ e, r.disk.get? (parent ++ [name]) = some e →
      ∃ number old, e = .file number old) :=
    (copyLeaf_of_room config hp ho hskip hroom hopen fun _ => rfl).2
  cases he : r.disk.get? (parent ++ [name]) with
  | none =>
      rw [hkept fun e he' => by rw [he] at he'; cases he']
      have hnew := Disk.get?_keep_of_none hne he content
      exact ⟨⟨fun _ => Or.inl rfl, fun _ => ⟨_, _, hnew⟩⟩, fun _ hthere => absurd rfl hthere,
        fun _ _ => ⟨_, hnew⟩, fun _ => by simp⟩
  | some e =>
      have hforce : config.force = true := by
        cases hf : config.force with
        | true => rfl
        | false =>
            have hnone := hgo hf
            rw [he] at hnone
            cases hnone
      rw [hforce]
      cases e with
      | file number old =>
          rw [hkept fun e he' => ⟨number, old, by rw [he] at he'; exact (Option.some.inj he').symm⟩]
          have hnew := Disk.get?_keep_of_file hne he content
          exact ⟨⟨fun _ => Or.inr ⟨_, _, rfl⟩, fun _ => ⟨_, _, hnew⟩⟩, Bool.noConfusion,
            fun _ _ => ⟨_, hnew⟩, fun _ => by simp⟩
      | directory =>
          -- A directory cannot be created as a file, and that is a failure.
          have hcreate := hp.createFile ho
          rw [he] at hcreate
          have hcopy := copyLeaf_copying s config path ⟨pathOf (parent ++ [name])⟩ r
          generalize copyLeaf s config path ⟨pathOf (parent ++ [name])⟩ r = out at hcopy hwell ⊢
          cases hcopy with
          | present hforce' => rw [hforce] at hforce'; cases hforce'
          | unopened _ hopen' => rw [hopen] at hopen'; cases hopen'
          | uncreated => exact absurd rfl (hwell _)
          | written _ _ hcreate' => rw [hcreate] at hcreate'; cases hcreate'
      | link target => exact absurd he (hp.noLink target)
      | device dev =>
          have hsame : (copyLeaf s config path ⟨pathOf (parent ++ [name])⟩ r).2.disk = r.disk := by
            rw [copyLeaf_disk hp ho]
            split
            · rfl
            · exact Disk.keep_of_other he (by simp) _
          have hirregular : ¬ Regular (some (.device dev)) := by
            rintro ⟨number, bytes, h⟩
            cases h
          rw [hsame, he]
          exact ⟨⟨Or.inr, fun h => h.resolve_left (by simp)⟩, Bool.noConfusion,
            fun _ h => absurd h hirregular, fun _ => by simp⟩

variable {t : MemoryTree} {d₀ : Disk} {base : Place} {known : List AssetPath} {q : AssetPath}

/-- A file that is laid out without a failure. -/
theorem Underway.file_of_clean (h : Underway d₀ base known r)
    (hw : (Task.leaf path q).Within known) (hleaf : t.get? path = some (.leaf content))
    (hclean : ((Task.leaf path q).deed (memorySource t) config ⟨pathOf base⟩ r).warning? = none) :
    Settles config.force content (r.disk.get? (q.below base))
      (((Task.leaf path q).perform (memorySource t) config ⟨pathOf base⟩ r).disk.get?
        (q.below base)) := by
  obtain ⟨names, n, rfl, hmem⟩ := hw q rfl
  have hkind : (memorySource t).kind r path = some .file := by
    rw [memorySource_kind, NodeTree.kind?, hleaf]
    rfl
  have hkind' : (memorySource t).kind r path ≠ some .directory := by
    rw [hkind]
    simp
  have hopen : (memorySource t).openAsset (beginLeaf path r) path =
      .ok fun _ => .ofBytes content := by
    show (t.leafAt path).map _ = _
    rw [NodeTree.leafAt, hleaf]
    rfl
  rw [Task.deed, if_neg hkind', h.free.under, AssetPath.below_snoc] at hclean
  rw [Task.perform, h.free.under, extractLeaf_disk, if_neg hkind', AssetPath.below_snoc]
  have hplain : (beginLeaf path r).disk.Plain (AssetPath.below ⟨names⟩ base) n.text :=
    h.free.plain names n
  refine copyLeaf_settles hplain (h.opens_or_barred hmem n) hopen fun e hfailed => ?_
  rw [hfailed] at hclean
  cases hclean

end File

/-! ## The run -/

/-- How far a clean report can be trusted. At the place of every file there is a
regular file in the end, unless something else stood there; without force that is
left as it is and counted as the file, and with force a directory cannot have stood
there. Where something was written it is the file's content. -/
theorem run_clean (t : MemoryTree) (ht : t.Built) (config : ExtractConfig) {names : List Name}
    (hroot : t.get? config.sourceRoot = some (.directory names)) (dest : Destination)
    (disk : Disk) (hfree : disk.LinkFreeAt dest.place) {report : Report}
    (hok : (run (.ofMemory t true) config dest disk).result = .ok report)
    (hclean : report.isClean = true) {q : AssetPath} {content : Bytes}
    (hleaf : t.get? (config.sourceRoot.append q) = some (.leaf content)) :
    Settles config.force content (disk.get? (q.below dest.place))
      ((run (.ofMemory t true) config dest disk).disk.get? (q.below dest.place)) := by
  have hlist := memorySource_list t { disk := disk } config.sourceRoot
  rw [NodeTree.children_of_directory hroot] at hlist
  have hcovers := planRun_covers config dest.path ht.consistent hroot (opening config dest disk [])
  have hordered := planRun_ordered (memorySource t) config dest.path (names.map (·.text))
    (opening config dest disk [])
  have hrun : run (.ofMemory t true) config dest disk = finish _ := runLive_of_list hlist
  rw [hrun] at hok ⊢
  obtain rfl := Except.ok.inj hok
  have hfailed := beq_iff_eq.mp hclean
  have hne : q ≠ .root := by
    rintro rfl
    rw [config.sourceRoot.append_root, hroot] at hleaf
    cases hleaf
  have hmem := (hcovers.mem q).mpr ⟨hne, by rw [hleaf]; exact Option.some_ne_none _⟩
  have hnodup := hcovers.nodup
  have hkinds := hcovers.kinds
  generalize planRun (memorySource t) config dest.path (names.map (·.text))
    (opening config dest disk []) = tasks at *
  -- The plan is cut at the one task of the file.
  obtain ⟨task, htask, hplace⟩ := List.mem_filterMap.mp hmem
  obtain rfl : task = .leaf (config.sourceRoot.append q) q := by
    rcases hkinds task htask with ⟨events, rfl⟩ | ⟨p, rfl⟩
    · cases hplace
    · rw [taskAt_place?, Option.some.injEq] at hplace
      subst hplace
      exact taskAt_of_nil (NodeTree.children_of_leaf hleaf)
  obtain ⟨pre, post, rfl⟩ := List.append_of_mem htask
  have hplaces : places (Task.leaf (config.sourceRoot.append q) q :: post) = q :: places post :=
    List.filterMap_cons_some rfl
  rw [places_append, hplaces, List.nodup_append] at hnodup
  obtain ⟨-, hbehind, hbefore⟩ := hnodup
  have hstart := underway_opening hfree config dest []
  obtain ⟨known, hturn, hw, hrest⟩ := hstart.turn (memorySource t) config hordered
  have hpre := hstart.performAll_elsewhere (memorySource t) config hordered.of_append
    fun hq => hbefore q hq q List.mem_cons_self rfl
  have hpost := (hturn.perform (memorySource t) config hw).performAll_elsewhere (memorySource t)
    config hrest (List.nodup_cons.mp hbehind).1
  rw [performAll_append] at hfailed ⊢
  have hsettles := hturn.file_of_clean hw hleaf (Task.warning?_of_clean hfailed)
  rw [hpre] at hsettles
  rw [← hpost] at hsettles
  exact hsettles

/-- A tree with a single file. -/
def loneTree : MemoryTree := NodeTree.empty.addChild .root leafName (.leaf [1])

theorem loneTree_built : loneTree.Built := by
  have hparse : AssetPath.parse "f" = .ok ⟨[leafName]⟩ := by rfl
  refine .file .empty "f" [1] ?_
  unfold MemoryTree.insertFile
  rw [hparse]
  rfl

theorem run_loneTree (disk : Disk) :
    run (.ofMemory loneTree true) {} ⟨["out"]⟩ disk =
      finish ((Task.leaf ⟨[leafName]⟩ ⟨[leafName]⟩).perform (memorySource loneTree) {} ⟨"/out"⟩
        (opening {} ⟨["out"]⟩ disk [])) := by
  have hroot : loneTree.children ({} : ExtractConfig).sourceRoot = [leafName] := rfl
  have hlist := memorySource_list loneTree { disk := disk } ({} : ExtractConfig).sourceRoot
  rw [hroot] at hlist
  have hd : ({} : ExtractConfig).sourceRoot.depth < (memorySource loneTree).depthLimit := by decide
  have hnone : loneTree.children ⟨[leafName]⟩ = [] := rfl
  have hleaf := memorySource_list loneTree (opening {} ⟨["out"]⟩ disk []) ⟨[leafName]⟩
  rw [hnone] at hleaf
  have hplan : planRun (memorySource loneTree) {} ⟨"/out"⟩ [leafName.text]
      (opening {} ⟨["out"]⟩ disk []) =
      [.noticed [], .leaf ⟨[leafName]⟩ ⟨[leafName]⟩] := by
    rw [planRun, dif_pos hd, planChildren_of_name hd leafName.ofString_text, planChildren_nil]
    exact congrArg (· ++ []) (planNode_of_leaf hleaf)
  exact (runLive_of_list hlist).trans (congrArg (fun tasks => finish (performAll
    (memorySource loneTree) {} ⟨"/out"⟩ tasks (opening {} ⟨["out"]⟩ disk []))) hplan)

theorem run_clean_small :
    ∃ report number, (run (.ofMemory loneTree true) {} ⟨["out"]⟩ Disk.small).result = .ok report ∧
      report.isClean = true ∧
      (run (.ofMemory loneTree true) {} ⟨["out"]⟩ Disk.small).disk.get? ["out", "f"] =
        some (.file number [1]) := by
  have hroot : loneTree.get? ({} : ExtractConfig).sourceRoot = some (.directory [leafName]) := rfl
  have hresult := congrArg Outcome.result (run_loneTree Disk.small)
  have hnone : Disk.small.get? (AssetPath.below ⟨[leafName]⟩ ["out"]) = none := rfl
  have hclean : ((Task.leaf ⟨[leafName]⟩ ⟨[leafName]⟩).perform (memorySource loneTree) {} ⟨"/out"⟩
      (opening {} ⟨["out"]⟩ Disk.small [])).report.isClean = true := by
    have hkind : (memorySource loneTree).kind (opening {} ⟨["out"]⟩ Disk.small []) ⟨[leafName]⟩ ≠
        some .directory := by decide
    have hopen : (memorySource loneTree).openAsset
        (beginLeaf ⟨[leafName]⟩ (opening {} ⟨["out"]⟩ Disk.small [])) ⟨[leafName]⟩ =
        .ok fun _ => .ofBytes [1] := rfl
    have hcopied := (copyLeaf_of_room {} (Disk.linkFreeAt_small_out.plain [] leafName)
      ⟨rfl, by decide, by decide⟩ (fun hthere => hthere.2 hnone)
      (fun e he => by cases hnone.symm.trans he) hopen fun _ => rfl).1
    have hreport := extractLeaf_report hkind {} ⟨"/out/f"⟩
    exact (congrArg Report.isClean hreport).trans (congrArg (fun outcome => (leafReport ⟨[leafName]⟩
      ⟨"/out/f"⟩ (some .file) {} outcome).isClean) hcopied)
  have hsettles := run_clean loneTree loneTree_built {} hroot ⟨["out"]⟩ Disk.small
    Disk.linkFreeAt_small_out hresult hclean (q := ⟨[leafName]⟩) rfl
  obtain ⟨number, hfilled⟩ := hsettles.filled (Or.inr hnone) (hsettles.regular.mpr (Or.inl hnone))
  exact ⟨_, number, hresult, hclean, hfilled⟩

/-- The small disk with a directory where the file of `loneTree` goes. -/
def occupiedDisk : Disk := Disk.small.put ["out", "f"] .directory

theorem linkFreeAt_occupiedDisk : occupiedDisk.LinkFreeAt ["out"] := by
  have h : (Disk.small.put (["out"] ++ ["f"]) .directory).LinkFreeAt ["out"] := by
    refine Disk.linkFreeAt_small_out.put _ rfl leafName.entryName (by decide) (fun e he => ?_)
      (by simp)
    cases he
  exact h

/-- Without force a directory at the place of a file goes unnoticed. -/
theorem run_clean_blind :
    loneTree.Built ∧ loneTree.get? ⟨[leafName]⟩ = some (.leaf [1]) ∧
      occupiedDisk.LinkFreeAt ["out"] ∧
      ∃ report, (run (.ofMemory loneTree true) {} ⟨["out"]⟩ occupiedDisk).result = .ok report ∧
        report.isClean = true ∧
        ¬ Regular ((run (.ofMemory loneTree true) {} ⟨["out"]⟩ occupiedDisk).disk.get?
          ["out", "f"]) := by
  have hrun := run_loneTree occupiedDisk
  have hdirectory : ((Task.leaf ⟨[leafName]⟩ ⟨[leafName]⟩).perform (memorySource loneTree) {}
      ⟨"/out"⟩ (opening {} ⟨["out"]⟩ occupiedDisk [])).disk.get? ["out", "f"] =
      some .directory := by decide +kernel
  refine ⟨loneTree_built, rfl, linkFreeAt_occupiedDisk, _, congrArg Outcome.result hrun,
    by decide +kernel, ?_⟩
  rw [hrun]
  rintro ⟨number, bytes, hfile⟩
  cases hdirectory.symm.trans hfile

end AssetUnpack.Extraction
