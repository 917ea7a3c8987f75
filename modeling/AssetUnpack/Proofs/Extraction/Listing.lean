import AssetUnpack.Manifest
import AssetUnpack.Proofs.Disk.Change
import AssetUnpack.Proofs.Extraction.Deeds

/-!
# A listing and an extraction walk the same nodes

The two walks are written separately. A listing asks a node what it is when it
comes by and writes that down; an extraction asks when it is about to lay the
node out, with files already written for the nodes before it. As long as the
names and kinds that a source tells depend on the path alone, neither makes a
difference: a manifest lists, in order, the leaves that any extraction begins,
and it counts the failures of the walk that any extraction warns of.

Between the two stands the plan of the extraction. `Lists` relates a plan to
what a listing adds to its manifest, by one induction over both walks side by
side; what the plan comes to in a run is read off the deeds of its tasks
(`performAll_walked`). Opening and reading play no part in either, so the answers
to those may be as fickle as they like.
-/

namespace AssetUnpack

/-- The entries that an extraction would begin: all but the directories. -/
def Manifest.leaves (m : Manifest) : List AssetPath :=
  (m.entries.filter fun e => e.kind ≠ some .directory).map (·.path)

/-- Whether a warning is about the walk: a node without a list of names, or a
name that is none. -/
def Warning.OfWalk (w : Warning) : Prop :=
  w.Begins "failed to list " ∨ w.Begins "invalid asset name "

instance (w : Warning) : Decidable w.OfWalk := inferInstanceAs (Decidable (_ ∨ _))

/-! ## The equations of a listing -/

namespace Manifest

section Equations

variable {s : Source} {disk : Disk} {path : AssetPath} {w : Walk} {events : List Event}

theorem listNode_of_error {e : IoError} (h : s.list disk path = (.error e, events)) :
    listNode s disk path w = (w.noteAll events).fail (.unlistableNode path e) := by
  rw [listNode.eq_def]
  split <;> rename_i h' <;> rw [h] at h' <;> cases h'
  rfl

theorem listNode_of_leaf (h : s.list disk path = (.ok [], events)) :
    listNode s disk path w = (w.noteAll events).push path (s.kind disk path) := by
  rw [listNode.eq_def]
  split <;> rename_i h' <;> rw [h] at h' <;> cases h'
  rfl

theorem listNode_of_children {name : String} {names : List String}
    (h : s.list disk path = (.ok (name :: names), events)) :
    listNode s disk path w =
      listChildren s disk path (Source.depth_lt_of_list (by rw [h])) (name :: names)
        ((w.noteAll events).push path (some .directory)) := by
  rw [listNode.eq_def]
  split <;> rename_i h' <;> rw [h] at h' <;> cases h'
  rfl

theorem listChildren_nil (hd : path.depth < s.depthLimit) :
    listChildren s disk path hd [] w = w := by
  rw [listChildren.eq_def]

theorem listChildren_of_name (hd : path.depth < s.depthLimit) {name : String} {n : Name}
    (hn : Name.ofString name = .ok n) (names : List String) :
    listChildren s disk path hd (name :: names) w =
      listChildren s disk path hd names (listNode s disk ⟨path.names ++ [n]⟩ w) := by
  rw [listChildren.eq_def]
  simp only [hn]

theorem listChildren_of_fault (hd : path.depth < s.depthLimit) {name : String}
    {e : InvalidPath} (hn : Name.ofString name = .error e) (names : List String) :
    listChildren s disk path hd (name :: names) w =
      listChildren s disk path hd names (w.fail (.invalidName path name e)) := by
  rw [listChildren.eq_def]
  simp only [hn]

theorem ofSource_of_error {e : IoError} (h : s.list disk path = (.error e, events)) :
    ofSource s disk path = (.error (.listFailed path.text e), events) := by
  unfold ofSource
  split <;> rename_i h' <;> rw [h] at h' <;> cases h'
  rfl

theorem ofSource_of_leaf (h : s.list disk path = (.ok [], events)) :
    (ofSource s disk path).1 = .ok { root := path } := by
  unfold ofSource
  split <;> rename_i h' <;> rw [h] at h' <;> cases h'
  rfl

theorem ofSource_of_children {name : String} {names : List String}
    (h : s.list disk path = (.ok (name :: names), events)) :
    (ofSource s disk path).1 =
      .ok (listChildren s disk path (Source.depth_lt_of_list (by rw [h])) (name :: names)
        ⟨{ root := path }, events⟩).manifest := by
  unfold ofSource
  split <;> rename_i h' <;> rw [h] at h' <;> cases h'
  rfl

end Equations

end Manifest

namespace Extraction

/-! ## A plan and a manifest -/

/-- A source as a listing asks it and as a run meets it: at each path there are
the same names, and the same is told of what it is. -/
structure SameNodes (s : Source) (live : LiveSource) : Prop where
  list : ∀ disk r path, (s.list disk path).1 = (live.list r path).1
  kind : ∀ disk r path, s.kind disk path = live.kind r path

/-- The leaf that a task begins, by what its node is. -/
def Task.begins (kind : AssetPath → Option NodeKind) : Task → Option AssetPath
  | leaf path _ => if kind path = some .directory then none else some path
  | _ => none

/-- Whether a task gives up on a node of the walk. -/
def Task.givesUp : Task → Bool
  | unlistable _ _ | invalidName _ _ _ => true
  | _ => false

/-- What tasks begin and give up on is what a manifest gained. -/
structure Lists (kind : AssetPath → Option NodeKind) (tasks : List Task) (m m' : Manifest) :
    Prop where
  leaves : m'.leaves = m.leaves ++ tasks.filterMap (Task.begins kind)
  failed : m'.nodesFailed = m.nodesFailed + tasks.countP Task.givesUp

section Lists

variable {kind : AssetPath → Option NodeKind} {m m' m'' : Manifest} {ts us : List Task}

theorem lists_nil (kind : AssetPath → Option NodeKind) (m : Manifest) : Lists kind [] m m :=
  ⟨(List.append_nil _).symm, rfl⟩

theorem Lists.append (ht : Lists kind ts m m') (hu : Lists kind us m' m'') :
    Lists kind (ts ++ us) m m'' := by
  constructor
  · rw [hu.leaves, ht.leaves, List.filterMap_append, List.append_assoc]
  · rw [hu.failed, ht.failed, List.countP_append, Nat.add_assoc]

theorem lists_giveUp {w : Manifest.Walk} {e : Event} {t : Task} (hbegins : t.begins kind = none)
    (ht : t.givesUp = true) : Lists kind [t] w.manifest (w.fail e).manifest := by
  refine ⟨?_, ?_⟩
  · rw [List.filterMap_cons_none hbegins]
    exact (List.append_nil _).symm
  · show w.manifest.nodesFailed + 1 = _
    simp [ht]

theorem lists_push {w : Manifest.Walk} {path : AssetPath} {k : Option NodeKind} {t : Task}
    (ht : t.givesUp = false)
    (hbegins : t.begins kind = if k = some .directory then none else some path) :
    Lists kind [t] w.manifest (w.push path k).manifest := by
  refine ⟨?_, ?_⟩
  · show ((w.manifest.entries ++ [(⟨path, k⟩ : ManifestEntry)]).filter fun e =>
        e.kind ≠ some .directory).map (·.path) = _
    rw [List.filter_append, List.map_append]
    by_cases hk : k = some .directory
    · rw [if_pos hk] at hbegins
      simp [Manifest.leaves, hbegins, hk]
    · rw [if_neg hk] at hbegins
      simp [Manifest.leaves, hbegins, hk]
  · show w.manifest.nodesFailed = _
    simp [ht]

theorem lists_noticed (events : List Event) (m : Manifest) :
    Lists kind [.noticed events] m m := ⟨(List.append_nil _).symm, rfl⟩

end Lists

section Walk

variable {s : Source} {live : LiveSource}

/-- The other walk is given the same answer, with what was noticed apart. -/
theorem SameNodes.list_eq (hs : SameNodes s live) (disk : Disk) {r : Run} {path : AssetPath}
    {answer : Except IoError (List String)} {events : List Event}
    (h : live.list r path = (answer, events)) :
    ∃ events', s.list disk path = (answer, events') := by
  have hsame := hs.list disk r path
  rw [h] at hsame
  exact ⟨(s.list disk path).2, Prod.ext hsame rfl⟩

mutual

/-- What a listing adds for a node, and the plan of an extraction for that node,
wherever it puts it and however far it has come. -/
theorem planNode_lists (hs : SameNodes s live) (config : ExtractConfig) (base : HostPath)
    (disk : Disk) (path place : AssetPath) (r : Run) (w : Manifest.Walk) :
    Lists (s.kind disk) (planNode live config base path place r) w.manifest
      (Manifest.listNode s disk path w).manifest := by
  match hlist : live.list r path with
  | (.error e, events) =>
      obtain ⟨events', hlist'⟩ := hs.list_eq disk hlist
      rw [planNode_of_error hlist, Manifest.listNode_of_error hlist']
      exact (lists_noticed events _).append (lists_giveUp (w := w.noteAll events') rfl rfl)
  | (.ok [], events) =>
      obtain ⟨events', hlist'⟩ := hs.list_eq disk hlist
      rw [planNode_of_leaf hlist, Manifest.listNode_of_leaf hlist']
      exact (lists_noticed events _).append (lists_push (w := w.noteAll events') rfl rfl)
  | (.ok (name :: names), events) =>
      obtain ⟨events', hlist'⟩ := hs.list_eq disk hlist
      have hd : path.depth < live.depthLimit := LiveSource.depth_lt_of_list (by rw [hlist])
      rw [planNode_of_children hlist, Manifest.listNode_of_children hlist']
      -- The listing enters the node itself, the plan a directory that begins nothing.
      have hself : Lists (s.kind disk) [.noticed events, .directory place] w.manifest
          ((w.noteAll events').push path (some .directory)).manifest :=
        (lists_noticed events _).append (lists_push (w := w.noteAll events') rfl rfl)
      exact hself.append (planChildren_lists hs config base disk path hd
        (Source.depth_lt_of_list (by rw [hlist'])) place (name :: names) _ _)
termination_by (live.depthLimit - path.depth, 1, 0)

theorem planChildren_lists (hs : SameNodes s live) (config : ExtractConfig) (base : HostPath)
    (disk : Disk) (parent : AssetPath) (hd : parent.depth < live.depthLimit)
    (hd' : parent.depth < s.depthLimit) (place : AssetPath) (names : List String) (r : Run)
    (w : Manifest.Walk) :
    Lists (s.kind disk) (planChildren live config base parent hd place names r) w.manifest
      (Manifest.listChildren s disk parent hd' names w).manifest := by
  match names with
  | [] =>
      rw [planChildren_nil, Manifest.listChildren_nil]
      exact lists_nil _ _
  | name :: names =>
      cases hn : Name.ofString name with
      | error e =>
          rw [planChildren_of_fault hd hn, Manifest.listChildren_of_fault hd' hn]
          have hself : Lists (s.kind disk) [.invalidName parent name e] w.manifest
              (w.fail (.invalidName parent name e)).manifest := lists_giveUp rfl rfl
          exact hself.append (planChildren_lists hs config base disk parent hd hd' place names _ _)
      | ok n =>
          rw [planChildren_of_name hd hn, Manifest.listChildren_of_name hd' hn]
          exact (planNode_lists hs config base disk _ _ r w).append
            (planChildren_lists hs config base disk parent hd hd' place names _ _)
termination_by (live.depthLimit - parent.depth, 0, names.length)
decreasing_by
  · apply Prod.Lex.right
    apply Prod.Lex.right
    simp
  · apply Prod.Lex.left
    simp only [AssetPath.depth, List.length_append, List.length_singleton] at hd ⊢
    omega
  · apply Prod.Lex.right
    apply Prod.Lex.right
    simp

end

end Walk

/-! ## A plan and a run -/

theorem ofWalk_failedToList (path : AssetPath) (e : IoError) :
    (Warning.failedToList path e).OfWalk :=
  Or.inl (Warning.begins_of_lead (by simp only [Warning.lead]; decide))

theorem ofWalk_invalidName (parent : AssetPath) (name : String) :
    (Warning.invalidName parent name).OfWalk :=
  Or.inr (Warning.begins_of_lead (by simp only [Warning.lead]; decide))

theorem not_ofWalk {w : Warning} {lead : String} (hlead : w.lead = lead)
    (h : lead = "failed to open '" ∨ lead = "failed to write '" ∨
      lead = "failed to create '") : ¬ w.OfWalk := by
  rintro (hlist | hname)
  · refine Warning.not_begins_of_lead hlead ?_ hlist
    rcases h with rfl | rfl | rfl <;> decide
  · refine Warning.not_begins_of_lead hlead ?_ hname
    rcases h with rfl | rfl | rfl <;> decide

section Run

variable {live : LiveSource} {kind : AssetPath → Option NodeKind}

/-- What seeing to a directory comes to is no matter of the walk. -/
theorem directoryDeed_walked (dest : HostPath) (r : Run) :
    (directoryDeed dest r).started? = none ∧
      (directoryDeed dest r).warning?.toList.countP (·.OfWalk) = 0 := by
  unfold directoryDeed
  split
  · exact ⟨rfl, rfl⟩
  · split
    · exact ⟨rfl, rfl⟩
    · next e _ =>
        have hnot := not_ofWalk (w := .failedToCreate dest.text e) rfl (Or.inr (Or.inr rfl))
        exact ⟨rfl, by simp [Deed.warning?, hnot]⟩

theorem leafDeed_walked (path : AssetPath) (dest : HostPath) (k : Option NodeKind)
    (result : Except IoError LeafOutcome) :
    (leafDeed path dest k result).started? = some path ∧
      (leafDeed path dest k result).warning?.toList.countP (·.OfWalk) = 0 := by
  unfold leafDeed
  split
  · exact ⟨rfl, rfl⟩
  · exact ⟨rfl, rfl⟩
  · next e =>
      have hnot := not_ofWalk (w := .failedToWrite dest.text e) rfl (Or.inr (Or.inl rfl))
      exact ⟨rfl, by simp [Deed.warning?, hnot]⟩
  · next e =>
      split
      · have hnot := not_ofWalk (w := .failedToOpen path e) rfl (Or.inl rfl)
        exact ⟨rfl, by simp [Deed.warning?, hnot]⟩
      · exact ⟨rfl, rfl⟩

/-- A task begins the leaf that its node says, and warns of the walk only where it
gives up, whatever the disk is like and whatever opens. -/
theorem Task.deed_walked (hkind : ∀ r path, live.kind r path = kind path)
    (config : ExtractConfig) (base : HostPath) (t : Task) (r : Run) :
    (t.deed live config base r).started? = t.begins kind ∧
      (t.deed live config base r).warning?.toList.countP (·.OfWalk) =
        [t].countP Task.givesUp := by
  cases t with
  | noticed => exact ⟨rfl, rfl⟩
  | unlistable path e =>
      exact ⟨rfl, by simp [Task.deed, Deed.warning?, Task.givesUp, ofWalk_failedToList]⟩
  | invalidName parent name e =>
      exact ⟨rfl, by simp [Task.deed, Deed.warning?, Task.givesUp, ofWalk_invalidName]⟩
  | directory place => exact directoryDeed_walked _ r
  | leaf path place =>
      rw [Task.deed, Task.begins, hkind r path]
      split
      · cases config.emptyDirectories with
        | skip => exact ⟨rfl, rfl⟩
        | create => exact directoryDeed_walked _ r
      · exact leafDeed_walked _ _ _ _

theorem performAll_walked (hkind : ∀ r path, live.kind r path = kind path)
    (config : ExtractConfig) (base : HostPath) (tasks : List Task) (r : Run) :
    begun (performAll live config base tasks r).progress =
        begun r.progress ++ tasks.filterMap (Task.begins kind) ∧
      (performAll live config base tasks r).report.warnings.countP (·.OfWalk) =
        r.report.warnings.countP (·.OfWalk) + tasks.countP Task.givesUp := by
  induction tasks generalizing r with
  | nil => exact ⟨(List.append_nil _).symm, rfl⟩
  | cons t tasks ih =>
      obtain ⟨hbegun, hwarnings⟩ := ih (t.perform live config base r)
      obtain ⟨hstarted, hwalked⟩ := t.deed_walked hkind config base r
      have hrecorded := t.perform_recorded live config base r
      have hcons : t :: tasks = [t] ++ tasks := rfl
      constructor
      · show begun (performAll live config base tasks (t.perform live config base r)).progress = _
        rw [hbegun, hrecorded.leaves, hstarted, hcons, List.filterMap_append, List.append_assoc]
        cases hb : t.begins kind <;> simp [hb]
      · show (performAll live config base tasks
          (t.perform live config base r)).report.warnings.countP _ = _
        rw [hwarnings, hrecorded.report, Deed.book_warnings, List.countP_append, hwalked, hcons,
          List.countP_append, Nat.add_assoc]

end Run

/-! ## The two walks -/

/-- A starting node without names below it is not walked at all. -/
theorem planRun_nil_givesUp (live : LiveSource) (config : ExtractConfig) (base : HostPath)
    (r : Run) : (planRun live config base [] r).countP Task.givesUp = 0 := by
  rw [planRun]
  cases config.sourceRoot.fileName? with
  | none => rfl
  | some name =>
      simp only []
      split
      · rfl
      · rfl

/-- What a listing finds is in the plan of any extraction from the same node. -/
theorem planRun_lists {s : Source} {live : LiveSource} (hs : SameNodes s live)
    (config : ExtractConfig) (base : HostPath) (d : Disk) {names : List String}
    {events : List Event} (hlist : s.list d config.sourceRoot = (.ok names, events))
    (r₀ : Run) (hlive : (live.list r₀ config.sourceRoot).1 = .ok names) (r : Run) :
    ∃ manifest, (Manifest.ofSource s d config.sourceRoot).1 = .ok manifest ∧
      (names ≠ [] → manifest.leaves =
        (planRun live config base names r).filterMap (Task.begins (s.kind d))) ∧
      manifest.nodesFailed = (planRun live config base names r).countP Task.givesUp := by
  cases names with
  | nil =>
      refine ⟨_, Manifest.ofSource_of_leaf hlist, fun h => absurd rfl h, ?_⟩
      rw [planRun_nil_givesUp]
  | cons name names =>
      have hd : config.sourceRoot.depth < live.depthLimit := LiveSource.depth_lt_of_list hlive
      have hwalk := planChildren_lists hs config base d config.sourceRoot hd
        (Source.depth_lt_of_list (by rw [hlist])) .root (name :: names) r
        ⟨{ root := config.sourceRoot }, events⟩
      rw [planRun, dif_pos hd]
      refine ⟨_, Manifest.ofSource_of_children hlist, fun _ => hwalk.leaves, ?_⟩
      rw [hwalk.failed]
      exact Nat.zero_add _

/-- A listing fails exactly if an extraction from the same node does, with the same
error. Otherwise an extraction of a node with anything below it begins the leaves
of the manifest in their order, and it warns of as many failures of the walk as the
manifest counts. -/
theorem runLive_lists (s : Source) (live : LiveSource) (hs : SameNodes s live)
    (config : ExtractConfig) (dest : Destination) (d disk : Disk) :
    let listed := (Manifest.ofSource s d config.sourceRoot).1
    let out := runLive live config dest disk
    (∀ e, listed = .error e ↔ out.result = .error e) ∧
      ∀ manifest report, listed = .ok manifest → out.result = .ok report →
        ((s.list d config.sourceRoot).1 ≠ .ok [] → begun out.progress = manifest.leaves) ∧
          manifest.nodesFailed = report.warnings.countP (·.OfWalk) := by
  intro listed out
  match hlist : live.list { disk := disk } config.sourceRoot with
  | (.error e, events) =>
      obtain ⟨events', hlist'⟩ := hs.list_eq d hlist
      have hlisted : listed = .error (.listFailed config.sourceRoot.text e) :=
        congrArg Prod.fst (Manifest.ofSource_of_error hlist')
      have hout : out.result = .error (.listFailed config.sourceRoot.text e) :=
        congrArg Outcome.result (runLive_of_error hlist)
      rw [hlisted, hout]
      exact ⟨fun e' => ⟨fun h => by cases h; rfl, fun h => by cases h; rfl⟩,
        fun _ _ h => by cases h⟩
  | (.ok names, events) =>
      obtain ⟨events', hlist'⟩ := hs.list_eq d hlist
      obtain ⟨manifest, hmanifest, hleaves, hfailed⟩ :=
        planRun_lists hs config dest.path d hlist' { disk := disk } (by rw [hlist])
          (opening config dest disk events)
      have hlisted : listed = .ok manifest := hmanifest
      have hout : out = finish (performAll live config dest.path
          (planRun live config dest.path names (opening config dest disk events))
          (opening config dest disk events)) := runLive_of_list hlist
      obtain ⟨hbegun, hwarnings⟩ := performAll_walked
        (fun r path => (hs.kind d r path).symm) config dest.path
        (planRun live config dest.path names (opening config dest disk events))
        (opening config dest disk events)
      rw [hlisted, hout]
      refine ⟨fun e => ?_, ?_⟩
      · constructor
        · intro h
          cases h
        · intro h
          cases h
      intro manifest' report hm hr
      obtain rfl := Except.ok.inj hm
      obtain rfl := Except.ok.inj hr
      constructor
      · intro hne
        have hnames : names ≠ [] := by
          rintro rfl
          exact hne (by rw [hlist'])
        show begun (Run.progress _ ++ [.done]) = _
        rw [begun_append, hbegun, hleaves hnames]
        exact List.append_nil _
      · rw [hfailed, hwarnings]
        exact (Nat.zero_add _).symm

/-- A source that names one node twice, gives a name that is none, and cannot list
what is below its second name. -/
def unevenSource : Source where
  list _ path :=
    if path = .root then (.ok ["a", "..", "b", "a"], [])
    else if path.text = "b" then (.error .noEntry, [])
    else (.ok [], [])
  kind _ _ := none
  openAsset _ _ _ := .error .noEntry
  depthLimit := 1
  list_deep _ path hdeep names hnames := by
    rw [if_neg (AssetPath.ne_root_of_deep hdeep)] at hnames
    split at hnames
    · cases hnames
    · exact (Except.ok.inj hnames).symm

theorem unevenSource_sameNodes : SameNodes unevenSource (.ofSource unevenSource) :=
  ⟨fun _ _ _ => rfl, fun _ _ _ => rfl⟩

theorem runLive_lists_uneven :
    SameNodes unevenSource (.ofSource unevenSource) ∧
      ∃ manifest report, (Manifest.ofSource unevenSource Disk.small .root).1 = .ok manifest ∧
        (runLive (.ofSource unevenSource) {} ⟨["out"]⟩ Disk.small).result = .ok report ∧
        begun (runLive (.ofSource unevenSource) {} ⟨["out"]⟩ Disk.small).progress =
          manifest.leaves ∧
        manifest.nodesFailed = report.warnings.countP (·.OfWalk) := by
  have hlist : unevenSource.list Disk.small .root = (.ok ["a", "..", "b", "a"], []) := rfl
  have hlisted := Manifest.ofSource_of_children hlist
  have hrun : runLive (.ofSource unevenSource) {} ⟨["out"]⟩ Disk.small = finish _ :=
    runLive_of_list hlist
  have hresult := congrArg Outcome.result hrun
  obtain ⟨hbegun, hfailed⟩ := (runLive_lists unevenSource (.ofSource unevenSource)
    unevenSource_sameNodes {} ⟨["out"]⟩ Disk.small Disk.small).2 _ _ hlisted hresult
  have hne : (unevenSource.list Disk.small .root).1 ≠ .ok [] := by
    rw [hlist]
    simp
  exact ⟨unevenSource_sameNodes, _, _, hlisted, hresult, hbegun hne, hfailed⟩

end Extraction

end AssetUnpack
