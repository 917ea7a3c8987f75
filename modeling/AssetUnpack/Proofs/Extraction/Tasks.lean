import AssetUnpack.Extraction

/-!
# A run is a list of tasks

The walk of an extraction is two functions that call each other, and what they
do to a run they do in five ways: they note what the source noticed, they give
up on a node that cannot be listed or has no proper name, they see to a
directory, and they lay out a leaf. A `Task` is one of these, `perform` is what
it does, and `planNode` collects the tasks of a walk while it goes on.

`extractNode_eq` says that performing the plan is all that the walk does. What
every task keeps, a run keeps (`performAll_induction`), so statements about
whole runs need no induction over the walk again.

The order of the plan matters too: nothing is laid out in a directory that was
not seen to before. `Ordered` says so, for a list of directories that are
already known.
-/

namespace AssetUnpack.Extraction

/-- One thing that a run does. The places of assets are relative to the
destination. -/
inductive Task
  | noticed (events : List Event)
  | unlistable (path : AssetPath) (e : IoError)
  | invalidName (parent : AssetPath) (name : String) (e : InvalidPath)
  | directory (place : AssetPath)
  | leaf (path place : AssetPath)

namespace Task

/-- What a task does to a run into `base`. -/
def perform (s : LiveSource) (config : ExtractConfig) (base : HostPath) : Task → Run → Run
  | noticed events, r => r.noteAll events
  | unlistable path e, r => r.fail (.failedToList path e) (.failedToList path e)
  | invalidName parent name e, r =>
    r.fail (.invalidName parent name e) (.invalidName parent name)
  | directory place, r => ensureDirectory (base.under place) r
  | leaf path place, r => extractLeaf s config path (base.under place) r

/-- Where a task lays something out. -/
def place? : Task → Option AssetPath
  | directory place | leaf _ place => some place
  | _ => none

end Task

/-- Perform tasks one after the other. -/
def performAll (s : LiveSource) (config : ExtractConfig) (base : HostPath) (tasks : List Task)
    (r : Run) : Run :=
  tasks.foldl (fun r t => t.perform s config base r) r

theorem performAll_append {s : LiveSource} {config : ExtractConfig} {base : HostPath}
    (ts us : List Task) (r : Run) :
    performAll s config base (ts ++ us) r =
      performAll s config base us (performAll s config base ts r) :=
  List.foldl_append

theorem performAll_induction {s : LiveSource} {config : ExtractConfig} {base : HostPath}
    {P : Run → Prop} {tasks : List Task}
    (hstep : ∀ t ∈ tasks, ∀ r, P r → P (t.perform s config base r)) {r : Run} (h : P r) :
    P (performAll s config base tasks r) := by
  induction tasks generalizing r with
  | nil => exact h
  | cons t tasks ih =>
      exact ih (fun u hu => hstep u (List.mem_cons_of_mem _ hu)) (hstep t (by simp) r h)

mutual

/-- The tasks of laying out a node at `place` and everything below it, for a
run that has come as far as `r`. -/
def planNode (s : LiveSource) (config : ExtractConfig) (base : HostPath) (path place : AssetPath)
    (r : Run) : List Task :=
  match h : s.list r path with
  | (.error e, events) => [.noticed events, .unlistable path e]
  | (.ok [], events) => [.noticed events, .leaf path place]
  | (.ok (name :: names), events) =>
    have hd : path.depth < s.depthLimit :=
      LiveSource.depth_lt_of_list (by rw [h])
    .noticed events :: .directory place ::
      planChildren s config base path hd place (name :: names)
        (ensureDirectory (base.under place) (r.noteAll events))
termination_by (s.depthLimit - path.depth, 1, 0)

/-- The tasks of laying out nodes with one parent. -/
def planChildren (s : LiveSource) (config : ExtractConfig) (base : HostPath) (parent : AssetPath)
    (hd : parent.depth < s.depthLimit) (place : AssetPath) (names : List String) (r : Run) :
    List Task :=
  match names with
  | [] => []
  | name :: names =>
    let tasks :=
      match Name.ofString name with
      | .ok n => planNode s config base ⟨parent.names ++ [n]⟩ ⟨place.names ++ [n]⟩ r
      | .error e => [.invalidName parent name e]
    tasks ++ planChildren s config base parent hd place names (performAll s config base tasks r)
termination_by (s.depthLimit - parent.depth, 0, names.length)
decreasing_by
  · apply Prod.Lex.left
    simp only [AssetPath.depth, List.length_append, List.length_singleton] at hd ⊢
    omega
  · apply Prod.Lex.right
    apply Prod.Lex.right
    simp

end

section Equations

variable {s : LiveSource} {config : ExtractConfig} {base : HostPath} {path place : AssetPath}
  {r : Run} {events : List Event}

theorem planNode_of_error {e : IoError} (h : s.list r path = (.error e, events)) :
    planNode s config base path place r = [.noticed events, .unlistable path e] := by
  rw [planNode.eq_def]
  split <;> rename_i h' <;> rw [h] at h' <;> cases h'
  rfl

theorem planNode_of_leaf (h : s.list r path = (.ok [], events)) :
    planNode s config base path place r = [.noticed events, .leaf path place] := by
  rw [planNode.eq_def]
  split <;> rename_i h' <;> rw [h] at h' <;> cases h'
  rfl

theorem planNode_of_children {name : String} {names : List String}
    (h : s.list r path = (.ok (name :: names), events)) :
    planNode s config base path place r =
      .noticed events :: .directory place ::
        planChildren s config base path (LiveSource.depth_lt_of_list (by rw [h])) place
          (name :: names) (ensureDirectory (base.under place) (r.noteAll events)) := by
  rw [planNode.eq_def]
  split <;> rename_i h' <;> rw [h] at h' <;> cases h'
  rfl

theorem planChildren_nil (hd : path.depth < s.depthLimit) :
    planChildren s config base path hd place [] r = [] := by
  rw [planChildren.eq_def]

theorem planChildren_of_name (hd : path.depth < s.depthLimit) {name : String} {n : Name}
    (hn : Name.ofString name = .ok n) (names : List String) :
    planChildren s config base path hd place (name :: names) r =
      planNode s config base ⟨path.names ++ [n]⟩ ⟨place.names ++ [n]⟩ r ++
        planChildren s config base path hd place names
          (performAll s config base
            (planNode s config base ⟨path.names ++ [n]⟩ ⟨place.names ++ [n]⟩ r) r) := by
  rw [planChildren.eq_def]
  simp only [hn]

theorem planChildren_of_fault (hd : path.depth < s.depthLimit) {name : String}
    {e : InvalidPath} (hn : Name.ofString name = .error e) (names : List String) :
    planChildren s config base path hd place (name :: names) r =
      .invalidName path name e ::
        planChildren s config base path hd place names
          (r.fail (.invalidName path name e) (.invalidName path name)) := by
  rw [planChildren.eq_def]
  simp only [hn]
  rfl

end Equations

theorem under_snoc (base : HostPath) (names : List Name) (n : Name) :
    base.under ⟨names ++ [n]⟩ = (base.under ⟨names⟩).push n := by
  simp [HostPath.under]

mutual

/-- The walk of a node performs the plan of the node and nothing else. -/
theorem extractNode_eq (s : LiveSource) (config : ExtractConfig) (base : HostPath)
    (path place : AssetPath) (r : Run) :
    extractNode s config path (base.under place) r =
      performAll s config base (planNode s config base path place r) r := by
  rw [extractNode.eq_def]
  split
  · next e events h => rw [planNode_of_error h]; rfl
  · next events h => rw [planNode_of_leaf h]; rfl
  · next name names events h =>
      have hd : path.depth < s.depthLimit := LiveSource.depth_lt_of_list (by rw [h])
      rw [planNode_of_children h]
      exact extractChildren_eq s config base path hd place (name :: names)
        (ensureDirectory (base.under place) (r.noteAll events))
termination_by (s.depthLimit - path.depth, 1, 0)

theorem extractChildren_eq (s : LiveSource) (config : ExtractConfig) (base : HostPath)
    (parent : AssetPath) (hd : parent.depth < s.depthLimit) (place : AssetPath)
    (names : List String) (r : Run) :
    extractChildren s config parent hd (base.under place) names r =
      performAll s config base (planChildren s config base parent hd place names r) r := by
  rw [extractChildren.eq_def]
  match names with
  | [] => rw [planChildren_nil]; rfl
  | name :: names =>
      cases hn : Name.ofString name with
      | error e =>
          rw [planChildren_of_fault hd hn]
          simp only [hn]
          exact extractChildren_eq s config base parent hd place names _
      | ok n =>
          rw [planChildren_of_name hd hn, performAll_append, ← extractNode_eq, under_snoc]
          simp only [hn]
          exact extractChildren_eq s config base parent hd place names _
termination_by (s.depthLimit - parent.depth, 0, names.length)
decreasing_by
  · apply Prod.Lex.right
    apply Prod.Lex.right
    simp
  · apply Prod.Lex.left
    simp only [AssetPath.depth, List.length_append, List.length_singleton] at hd ⊢
    omega
  · apply Prod.Lex.right
    apply Prod.Lex.right
    simp

end

/-! ## Following the walk

A property of plans that says nothing of the runs they were made for is proved
once for each way that the walk can go on. -/

/-- Two properties, one of the plans of nodes and one of the plans of what is in a
directory, that the walk hands on. -/
structure Hereditary (P Q : AssetPath → AssetPath → List Task → Prop) : Prop where
  unlistable : ∀ path place events e, P path place [.noticed events, .unlistable path e]
  leaf : ∀ path place events, P path place [.noticed events, .leaf path place]
  directory : ∀ path place events tasks, Q path place tasks →
    P path place (.noticed events :: .directory place :: tasks)
  nil : ∀ parent place, Q parent place []
  fault : ∀ parent place name e tasks, Q parent place tasks →
    Q parent place (.invalidName parent name e :: tasks)
  name : ∀ (parent place : AssetPath) n ts us, P ⟨parent.names ++ [n]⟩ ⟨place.names ++ [n]⟩ ts →
    Q parent place us → Q parent place (ts ++ us)

section Hereditary

variable {P Q : AssetPath → AssetPath → List Task → Prop}

mutual

theorem Hereditary.planNode (h : Hereditary P Q) (s : LiveSource) (config : ExtractConfig)
    (base : HostPath) (path place : AssetPath) (r : Run) :
    P path place (planNode s config base path place r) := by
  match hlist : s.list r path with
  | (.error e, events) =>
      rw [planNode_of_error hlist]
      exact h.unlistable path place events e
  | (.ok [], events) =>
      rw [planNode_of_leaf hlist]
      exact h.leaf path place events
  | (.ok (name :: names), events) =>
      have hd : path.depth < s.depthLimit := LiveSource.depth_lt_of_list (by rw [hlist])
      rw [planNode_of_children hlist]
      exact h.directory path place events _
        (h.planChildren s config base path hd place (name :: names) _)
termination_by (s.depthLimit - path.depth, 1, 0)

theorem Hereditary.planChildren (h : Hereditary P Q) (s : LiveSource) (config : ExtractConfig)
    (base : HostPath) (parent : AssetPath) (hd : parent.depth < s.depthLimit)
    (place : AssetPath) (names : List String) (r : Run) :
    Q parent place (planChildren s config base parent hd place names r) := by
  match names with
  | [] =>
      rw [planChildren_nil]
      exact h.nil parent place
  | name :: names =>
      cases hn : Name.ofString name with
      | error e =>
          rw [planChildren_of_fault hd hn]
          exact h.fault parent place name e _
            (h.planChildren s config base parent hd place names _)
      | ok n =>
          rw [planChildren_of_name hd hn]
          exact h.name parent place n _ _ (h.planNode s config base _ _ r)
            (h.planChildren s config base parent hd place names _)
termination_by (s.depthLimit - parent.depth, 0, names.length)
decreasing_by
  · apply Prod.Lex.right
    apply Prod.Lex.right
    simp
  · apply Prod.Lex.left
    simp only [AssetPath.depth, List.length_append, List.length_singleton] at hd ⊢
    omega
  · apply Prod.Lex.right
    apply Prod.Lex.right
    simp

end

end Hereditary

/-! ## The whole run

A run that starts has a plan like every node in it, except that nothing is done
for the starting node itself. -/

/-- The tasks of a run that found `names` below its starting node. -/
def planRun (s : LiveSource) (config : ExtractConfig) (base : HostPath) (names : List String)
    (r : Run) : List Task :=
  match names with
  | [] =>
    match config.sourceRoot.fileName? with
    | none => [.noticed [.nothingToExtract config.sourceRoot]]
    | some name =>
      if s.kind r config.sourceRoot = some .directory then
        [.noticed [.nothingToExtract config.sourceRoot]]
      else [.leaf config.sourceRoot ⟨[name]⟩]
  | name :: names =>
    if hd : config.sourceRoot.depth < s.depthLimit then
      planChildren s config base config.sourceRoot hd .root (name :: names) r
    else []

/-- How far a run has come when its starting node is listed. -/
def opening (config : ExtractConfig) (dest : Destination) (disk : Disk) (events : List Event) :
    Run :=
  (({ disk := disk } : Run).noteAll events).note
    (.started config.sourceRoot dest.path.text config.force)

/-- What a run leaves that has done all its tasks. -/
def finish (r : Run) : Outcome :=
  ⟨.ok r.report, r.disk, r.events ++ [closing r.report], r.progress ++ [.done], r.calls⟩

theorem extractRootLeaf_eq (s : LiveSource) (config : ExtractConfig) (base : HostPath)
    (r : Run) :
    extractRootLeaf s config base r =
      performAll s config base (planRun s config base [] r) r := by
  rw [extractRootLeaf, planRun]
  cases config.sourceRoot.fileName? with
  | none => rfl
  | some name =>
      by_cases hk : s.kind r config.sourceRoot = some .directory
      · simp only [if_pos hk]
        rfl
      · simp only [if_neg hk]
        rfl

theorem runLive_of_error {s : LiveSource} {config : ExtractConfig} {dest : Destination}
    {disk : Disk} {e : IoError} {events : List Event}
    (h : s.list { disk := disk } config.sourceRoot = (.error e, events)) :
    runLive s config dest disk =
      .refused disk events (.listFailed config.sourceRoot.text e) := by
  unfold runLive
  simp only []
  split <;> rename_i h' <;> rw [h] at h' <;> cases h'
  rfl

theorem runLive_of_list {s : LiveSource} {config : ExtractConfig} {dest : Destination}
    {disk : Disk} {names : List String} {events : List Event}
    (h : s.list { disk := disk } config.sourceRoot = (.ok names, events)) :
    runLive s config dest disk =
      finish (performAll s config dest.path
        (planRun s config dest.path names (opening config dest disk events))
        (opening config dest disk events)) := by
  unfold runLive
  simp only []
  split <;> rename_i h' <;> rw [h] at h' <;> cases h'
  cases names with
  | nil =>
      rw [← extractRootLeaf_eq]
      rfl
  | cons name names =>
      have hd : config.sourceRoot.depth < s.depthLimit :=
        LiveSource.depth_lt_of_list (by rw [h])
      rw [planRun, dif_pos hd, ← extractChildren_eq]
      rfl

/-! ## The order of the plan -/

/-- The directories seen to after a task, given those before. -/
def Task.seeTo (known : List AssetPath) : Task → List AssetPath
  | directory place => place :: known
  | _ => known

theorem Task.seeTo_of_none {t : Task} (h : t.place? = none) (known : List AssetPath) :
    t.seeTo known = known := by
  cases t with
  | noticed | unlistable | invalidName => rfl
  | directory | leaf => cases h

/-- What a task lays out, if anything, it lays out right below a known
directory. -/
def Task.Within (known : List AssetPath) (t : Task) : Prop :=
  ∀ place, t.place? = some place →
    ∃ names n, place = ⟨names ++ [n]⟩ ∧ (⟨names⟩ : AssetPath) ∈ known

theorem Task.within_of_none {known : List AssetPath} {t : Task} (h : t.place? = none) :
    t.Within known := by
  intro place hp
  rw [h] at hp
  cases hp

theorem Task.within_of_snoc {known : List AssetPath} {t : Task} {names : List Name} {n : Name}
    (h : t.place? = some ⟨names ++ [n]⟩) (hknown : (⟨names⟩ : AssetPath) ∈ known) :
    t.Within known := by
  intro place hp
  rw [h] at hp
  exact ⟨names, n, (Option.some.inj hp).symm, hknown⟩

/-- Every task keeps to directories that were seen to before it. -/
def Ordered (known : List AssetPath) : List Task → Prop
  | [] => True
  | t :: tasks => t.Within known ∧ Ordered (t.seeTo known) tasks

theorem Ordered.mono {known known' : List AssetPath} (hsub : ∀ p ∈ known, p ∈ known')
    {tasks : List Task} (h : Ordered known tasks) : Ordered known' tasks := by
  induction tasks generalizing known known' with
  | nil => trivial
  | cons t tasks ih =>
      refine ⟨fun place hp => ?_, ih ?_ h.2⟩
      · obtain ⟨names, n, hplace, hmem⟩ := h.1 place hp
        exact ⟨names, n, hplace, hsub _ hmem⟩
      · cases t with
        | directory place =>
            intro p hp
            rcases List.mem_cons.mp hp with rfl | hp
            · exact List.mem_cons_self
            · exact List.mem_cons_of_mem _ (hsub p hp)
        | noticed | unlistable | invalidName | leaf => exact hsub

theorem Ordered.append {known : List AssetPath} {ts us : List Task} (ht : Ordered known ts)
    (hu : Ordered known us) : Ordered known (ts ++ us) := by
  induction ts generalizing known with
  | nil => exact hu
  | cons t ts ih =>
      refine ⟨ht.1, ih ht.2 (hu.mono ?_)⟩
      cases t with
      | directory place => exact fun p hp => List.mem_cons_of_mem _ hp
      | noticed | unlistable | invalidName | leaf => exact fun p hp => hp

theorem ordered_singleton {known : List AssetPath} {t : Task} (h : t.Within known) :
    Ordered known [t] := ⟨h, trivial⟩

theorem hereditary_ordered :
    Hereditary
      (fun _ place tasks => ∀ known names n, place = ⟨names ++ [n]⟩ →
        (⟨names⟩ : AssetPath) ∈ known → Ordered known tasks)
      fun _ place tasks => ∀ known, place ∈ known → Ordered known tasks where
  unlistable _ _ _ _ _ _ _ _ _ :=
    ⟨Task.within_of_none rfl, Task.within_of_none rfl, trivial⟩
  leaf _ _ _ _ _ _ hplace hknown :=
    ⟨Task.within_of_none rfl, Task.within_of_snoc (congrArg some hplace) hknown, trivial⟩
  directory _ place _ _ htasks known _ _ hplace hknown :=
    ⟨Task.within_of_none rfl, Task.within_of_snoc (congrArg some hplace) hknown,
      htasks (place :: known) List.mem_cons_self⟩
  nil _ _ _ _ := trivial
  fault _ _ _ _ _ htasks known hknown :=
    (ordered_singleton (Task.within_of_none rfl)).append (htasks known hknown)
  name _ place n _ _ hts hus known hknown :=
    (hts known place.names n rfl hknown).append (hus known hknown)

theorem planNode_ordered (s : LiveSource) (config : ExtractConfig) (base : HostPath)
    (path : AssetPath) (names : List Name) (n : Name) (r : Run) {known : List AssetPath}
    (hknown : (⟨names⟩ : AssetPath) ∈ known) :
    Ordered known (planNode s config base path ⟨names ++ [n]⟩ r) :=
  hereditary_ordered.planNode s config base path ⟨names ++ [n]⟩ r known names n rfl hknown

theorem planChildren_ordered (s : LiveSource) (config : ExtractConfig) (base : HostPath)
    (parent : AssetPath) (hd : parent.depth < s.depthLimit) (place : AssetPath)
    (names : List String) (r : Run) {known : List AssetPath} (hknown : place ∈ known) :
    Ordered known (planChildren s config base parent hd place names r) :=
  hereditary_ordered.planChildren s config base parent hd place names r known hknown

theorem planRun_ordered (s : LiveSource) (config : ExtractConfig) (base : HostPath)
    (names : List String) (r : Run) :
    Ordered [.root] (planRun s config base names r) := by
  unfold planRun
  split
  · split
    · exact ordered_singleton (Task.within_of_none rfl)
    · split
      · exact ordered_singleton (Task.within_of_none rfl)
      · next name _ _ =>
          have hw : Task.Within [AssetPath.root] (.leaf config.sourceRoot ⟨[name]⟩) :=
            fun place hp => ⟨[], name, (Option.some.inj hp).symm, List.mem_cons_self⟩
          exact ordered_singleton hw
  · split
    · exact planChildren_ordered s config base _ _ _ _ r (by simp)
    · trivial

/-- What tasks in known directories keep, a list of tasks in order keeps. -/
theorem performAll_ordered {s : LiveSource} {config : ExtractConfig} {base : HostPath}
    {P : List AssetPath → Run → Prop}
    (hstep : ∀ known (t : Task) r, P known r → t.Within known →
      P (t.seeTo known) (t.perform s config base r))
    {tasks : List Task} {known : List AssetPath} (ho : Ordered known tasks) {r : Run}
    (h : P known r) : ∃ known', P known' (performAll s config base tasks r) := by
  induction tasks generalizing known r with
  | nil => exact ⟨known, h⟩
  | cons t tasks ih => exact ih ho.2 (hstep known t r h ho.1)

end AssetUnpack.Extraction
