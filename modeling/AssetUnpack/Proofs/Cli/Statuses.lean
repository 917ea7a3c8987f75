import AssetUnpack.Proofs.Cli.Documents
import AssetUnpack.Proofs.Extraction.Unhindered

/-!
# The statuses of a listing and of an extraction

Both documents carry a status, and for a consumer "partial" means that nodes failed.
Where only the walk can fail, an extraction and a listing of one node fail at the same
nodes, so their documents could agree on the status too. They do as long as nothing
fails. But only the document of an extraction looks at the failures it reports: that
of a listing says "success" beside any number of them.
-/

namespace AssetUnpack.Cli

open Extraction

/-- The status that a printed document tells. -/
def status? (printed : String) : Option Status := do
  let word ← (← (← Json.read printed).member? "status").text?
  [Status.success, .partially].find? fun status => status.text = word

theorem status?_document {style : OutputStyle} (hjson : style.json = true) (operation : String)
    (status : Status) (data : JsonValue) (lines : List String) :
    status? (print style (document operation status data) lines) = some status := by
  have hmember : (document operation status data).toJson.member? "status" =
      some (.text status.text) := rfl
  rw [status?, read_print hjson, Option.bind_eq_bind, Option.bind_some, hmember]
  cases status <;> rfl

theorem status?_printReport {style : OutputStyle} (hjson : style.json = true) (r : Report) :
    status? (printReport style r) =
      some (if r.nodesFailed = 0 then .success else .partially) := by
  rw [printReport, reportDocument, status?_document hjson]
  by_cases hzero : r.nodesFailed = 0
  · have hclean : r.isClean = true := beq_iff_eq.mpr hzero
    rw [if_pos hzero, if_pos hclean]
  · have hclean : ¬ r.isClean = true := fun h => hzero (beq_iff_eq.mp h)
    rw [if_neg hzero, if_neg hclean]

/-- The document of a listing always tells of success. -/
theorem status?_printManifest {style : OutputStyle} (hjson : style.json = true) (long : Bool)
    (m : Manifest) : status? (printManifest style long m) = some .success := by
  rw [printManifest, manifestDocument, status?_document hjson]

/-- Where only the walk can fail, both documents tell of the same failures, and the
status of the extraction says whether there are any. The status of the listing is the
same if and only if there are none. -/
theorem statuses_agree_iff (s : Source) (live : LiveSource) (hs : SameNodes s live)
    (config : ExtractConfig) (dest : Destination) (d disk : Disk)
    (hfree : disk.LinkFreeAt dest.place)
    (hempty : ∀ q : AssetPath, q ≠ .root → disk.get? (q.below dest.place) = none)
    (hread : ∀ path, s.HasLeaf d config.sourceRoot path → live.Readable path)
    (hdone : AllDone disk (runLive live config dest disk).calls)
    (style style' : OutputStyle) (hjson : style.json = true) (hjson' : style'.json = true)
    (long : Bool) (manifest : Manifest)
    (hlisted : (Manifest.ofSource s d config.sourceRoot).1 = .ok manifest) :
    ∃ report, (runLive live config dest disk).result = .ok report ∧
      report.nodesFailed = manifest.nodesFailed ∧
      status? (printReport style report) =
        some (if manifest.nodesFailed = 0 then .success else .partially) ∧
      status? (printManifest style' long manifest) = some .success ∧
      (status? (printReport style report) = status? (printManifest style' long manifest) ↔
        manifest.nodesFailed = 0) := by
  obtain ⟨report, hreport, hfailed⟩ :=
    runLive_nodesFailed hs config dest d disk hfree hempty hread hdone hlisted
  have hextract := status?_printReport hjson report
  have hlist := status?_printManifest hjson' long manifest
  rw [hfailed] at hextract
  refine ⟨report, hreport, hfailed, hextract, hlist, ?_⟩
  rw [hextract, hlist]
  by_cases hzero : manifest.nodesFailed = 0
  · simp [hzero]
  · simp [hzero]

/-! ## A damaged source -/

/-- A source with a readable file and a text for a name that is none. -/
def damagedSource : Source where
  list _ path := (.ok (if path = .root then ["..", "a"] else []), [])
  kind _ path := some (if path = .root then .directory else .file)
  openAsset _ _ _ := .ok fun _ => .ofBytes [120]
  depthLimit := 1
  list_deep _ path hdeep names hnames := by
    rw [if_neg (AssetPath.ne_root_of_deep hdeep)] at hnames
    exact (Except.ok.inj hnames).symm

def documentsOnly : OutputStyle where
  json := true
  verbose := false
  quiet := false
  colors := false

theorem damagedSource_sameNodes : SameNodes damagedSource (.ofSource damagedSource) :=
  ⟨fun _ _ _ => rfl, fun _ _ _ => rfl⟩

theorem damagedSource_readable (path : AssetPath) :
    (LiveSource.ofSource damagedSource).Readable path := by
  intro r
  refine ⟨fun _ => .ofBytes [120], rfl, fun disk => ?_⟩
  rw [Reader.deliver_ofBytes (by decide)]

theorem get?_small_out {q : AssetPath} (hq : q ≠ .root) :
    Disk.small.get? (q.below ["out"]) = none := by
  have hentries : Disk.small.table.entries = [(["out"], .directory), (["kept"], .file 0 [7]),
      (["in"], .directory), (["in", "a"], .file 1 [104, 105])] := rfl
  have hget : Disk.small.get? (["out"] ++ q.names.map (·.text)) =
      Table.lookupIn (["out"] ++ q.names.map (·.text)) Disk.small.table.entries :=
    if_neg (by simp)
  have hnames : q.names ≠ [] := fun h => hq (congrArg AssetPath.mk h)
  rw [AssetPath.below, hget, hentries, Table.lookupIn_eq_none]
  simp [hnames]

theorem ofSource_damagedSource :
    (Manifest.ofSource damagedSource Disk.small .root).1 =
      .ok ⟨.root, [⟨⟨[Disk.fileNamed]⟩, some .file⟩], 1⟩ := by
  have hlist : damagedSource.list Disk.small .root = (.ok ["..", "a"], []) := rfl
  have hfault : Name.ofString ".." = .error ⟨"..", .parentDirectory⟩ := rfl
  have hname : Name.ofString "a" = .ok Disk.fileNamed := rfl
  have hleaf : damagedSource.list Disk.small ⟨AssetPath.root.names ++ [Disk.fileNamed]⟩ =
      (.ok [], []) := rfl
  rw [Manifest.ofSource_of_children hlist, Manifest.listChildren_of_fault _ hfault,
    Manifest.listChildren_of_name _ hname, Manifest.listChildren_nil,
    Manifest.listNode_of_leaf hleaf]
  rfl

theorem runLive_damagedSource_allDone :
    AllDone Disk.small (runLive (.ofSource damagedSource) {} ⟨["out"]⟩ Disk.small).calls := by
  have hlist : (LiveSource.ofSource damagedSource).list { disk := Disk.small } .root =
      (.ok ["..", "a"], []) := rfl
  have hdeep : AssetPath.root.depth < (LiveSource.ofSource damagedSource).depthLimit :=
    Nat.zero_lt_one
  have hfault : Name.ofString ".." = .error ⟨"..", .parentDirectory⟩ := rfl
  have hname : Name.ofString "a" = .ok Disk.fileNamed := rfl
  have hleaf : ∀ r, (LiveSource.ofSource damagedSource).list r
      ⟨({} : ExtractConfig).sourceRoot.names ++ [Disk.fileNamed]⟩ = (.ok [], []) := fun _ => rfl
  rw [runLive_of_list hlist, planRun, dif_pos hdeep, planChildren_of_fault _ hfault,
    planChildren_of_name _ hname, planChildren_nil, planNode_of_leaf (hleaf _)]
  -- Only the file asks for anything, and nothing stands in its place.
  let r := (opening {} ⟨["out"]⟩ Disk.small []).fail
    (.invalidName .root ".." ⟨"..", .parentDirectory⟩) (.invalidName .root "..")
  have hplace : (Task.leaf ⟨[Disk.fileNamed]⟩ ⟨[Disk.fileNamed]⟩).place? =
      some ⟨[] ++ [Disk.fileNamed]⟩ := rfl
  have hfree : r.disk.LinkFreeAt ["out"] := Disk.linkFreeAt_small_out
  have hopens : Disk.small.Opens ["out"] "a" := ⟨rfl, by decide, by decide⟩
  obtain ⟨cs, hasked, hcalls, -⟩ := Task.asked hfree (.ofSource damagedSource) {} hplace
  have hdone : AllDone Disk.small ((Task.leaf ⟨[Disk.fileNamed]⟩ ⟨[Disk.fileNamed]⟩).perform
      (.ofSource damagedSource) {} ⟨Disk.pathOf ["out"]⟩ r).calls := by
    rw [hcalls]
    exact hasked.allDone (Disk.linkFreeAt_small_out.plain [] Disk.fileNamed) hopens rfl
  exact hdone

/-- The documents of that source tell of one failure each, and not of one status. -/
theorem statuses_agree_iff_damaged :
    ∃ report, (runLive (.ofSource damagedSource) {} ⟨["out"]⟩ Disk.small).result = .ok report ∧
      report.nodesFailed = 1 ∧
      status? (printReport documentsOnly report) = some .partially ∧
      status? (printManifest documentsOnly false
        ⟨.root, [⟨⟨[Disk.fileNamed]⟩, some .file⟩], 1⟩) = some .success := by
  obtain ⟨report, hreport, hfailed, hextract, hlist, -⟩ := statuses_agree_iff damagedSource
    (.ofSource damagedSource) damagedSource_sameNodes {} ⟨["out"]⟩ Disk.small Disk.small
    Disk.linkFreeAt_small_out (fun _ => get?_small_out) (fun path _ => damagedSource_readable path)
    runLive_damagedSource_allDone documentsOnly documentsOnly rfl rfl
    false _ ofSource_damagedSource
  exact ⟨report, hreport, hfailed, hextract, hlist⟩

/-- For a source with a failure, a run that gets all it asks for and a listing print
different statuses. -/
theorem statuses_differ :
    SameNodes damagedSource (.ofSource damagedSource) ∧
      (∀ path, (LiveSource.ofSource damagedSource).Readable path) ∧
      (∀ q : AssetPath, q ≠ .root → Disk.small.get? (q.below ["out"]) = none) ∧
      AllDone Disk.small (runLive (.ofSource damagedSource) {} ⟨["out"]⟩ Disk.small).calls ∧
      ∃ report manifest,
        (runLive (.ofSource damagedSource) {} ⟨["out"]⟩ Disk.small).result = .ok report ∧
        (Manifest.ofSource damagedSource Disk.small .root).1 = .ok manifest ∧
        status? (printReport documentsOnly report) ≠
          status? (printManifest documentsOnly false manifest) := by
  obtain ⟨report, hreport, hfailed⟩ := runLive_nodesFailed damagedSource_sameNodes {} ⟨["out"]⟩
    Disk.small Disk.small Disk.linkFreeAt_small_out (fun _ => get?_small_out)
    (fun path _ => damagedSource_readable path) runLive_damagedSource_allDone
    ofSource_damagedSource
  refine ⟨damagedSource_sameNodes, damagedSource_readable, fun _ => get?_small_out,
    runLive_damagedSource_allDone, report, _, hreport, ofSource_damagedSource, ?_⟩
  rw [status?_printReport rfl, status?_printManifest rfl, hfailed]
  decide

end AssetUnpack.Cli
