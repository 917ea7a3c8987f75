import AssetUnpack.Proofs.Disk.SameShape
import AssetUnpack.Proofs.Extraction.Counts

/-!
# Running again

A source whose answers depend on the path alone gives every run the same tasks.
So two runs can be compared task by task, even where the first was not clean.

Without force a second run has nothing left to do. After a task its place is
*resolved*: it bars every lookup, or something stands there; and a task with a
resolved place changes neither the disk nor any of the counters of what was
written. Being resolved outlives every later task, since the disk only grows.

With force the second run writes files again, and the question is whether it
ends on the disk that it would have ended on alone. What stands where is the
same after any two runs that keep step (`SameShape`), whether they force or not.
For the bytes it is enough to know what the last task for a place writes
(`lastBytes`), or, if there is none, what the file held at first.
-/

namespace AssetUnpack.Extraction

open Disk (pathOf)

/-- A source whose answers depend on the path alone. -/
structure LiveSource.ByPath (s : LiveSource) : Prop where
  list : ∀ r r' path, s.list r path = s.list r' path
  kind : ∀ r r' path, s.kind r path = s.kind r' path
  openAsset : ∀ r r' path, s.openAsset r path = s.openAsset r' path
  content : ∀ {r path content}, s.openAsset r path = .ok content → ∀ d d', content d = content d'

/-! ## One plan -/

section Plan

variable {s s' : LiveSource} (config config' : ExtractConfig) (base : HostPath)

mutual

theorem planNode_congr (hs : ∀ r r' path, s.list r path = s'.list r' path)
    (path place : AssetPath) (r r' : Run) :
    planNode s config base path place r = planNode s' config' base path place r' := by
  have hlist := hs r r' path
  match h : s.list r path with
  | (.error e, events) => rw [planNode_of_error h, planNode_of_error (hlist.symm.trans h)]
  | (.ok [], events) => rw [planNode_of_leaf h, planNode_of_leaf (hlist.symm.trans h)]
  | (.ok (name :: names), events) =>
      have hd : path.depth < s.depthLimit := LiveSource.depth_lt_of_list (by rw [h])
      have hd' : path.depth < s'.depthLimit :=
        LiveSource.depth_lt_of_list (by rw [hlist.symm.trans h])
      rw [planNode_of_children h, planNode_of_children (hlist.symm.trans h),
        planChildren_congr hs path hd hd' place (name :: names) _
          (ensureDirectory (base.under place) (r'.noteAll events))]
termination_by (s.depthLimit - path.depth, 1, 0)

theorem planChildren_congr (hs : ∀ r r' path, s.list r path = s'.list r' path)
    (parent : AssetPath) (hd : parent.depth < s.depthLimit) (hd' : parent.depth < s'.depthLimit)
    (place : AssetPath) (names : List String) (r r' : Run) :
    planChildren s config base parent hd place names r =
      planChildren s' config' base parent hd' place names r' := by
  match names with
  | [] => rw [planChildren_nil, planChildren_nil]
  | name :: names =>
      cases hn : Name.ofString name with
      | error e =>
          rw [planChildren_of_fault hd hn, planChildren_of_fault hd' hn,
            planChildren_congr hs parent hd hd' place names]
      | ok n =>
          rw [planChildren_of_name hd hn, planChildren_of_name hd' hn,
            planNode_congr hs _ _ r r', planChildren_congr hs parent hd hd' place names]
termination_by (s.depthLimit - parent.depth, 0, names.length)
decreasing_by
  · apply Prod.Lex.right
    apply Prod.Lex.right
    simp
  · apply Prod.Lex.left
    simp only [AssetPath.depth, List.length_append, List.length_singleton] at hd ⊢
    omega
  · apply Prod.Lex.right
    apply Prod.Lex.right
    simp

end

theorem planRun_congr (hs : s.ByPath) (hroot : config.sourceRoot = config'.sourceRoot)
    (names : List String) (r r' : Run) :
    planRun s config base names r = planRun s config' base names r' := by
  cases names with
  | nil => simp only [planRun, hroot, hs.kind r r']
  | cons name names =>
      simp only [planRun, hroot]
      split
      · exact planChildren_congr config config' base hs.list _ _ _ _ _ r r'
      · rfl

end Plan

/-! ## Nothing is left to do -/

/-- A task that does nothing to the disk, whatever stands there: a leaf among
them is an empty directory to be skipped, or cannot be opened. -/
def Task.Inert (s : LiveSource) (policy : EmptyDirectories) : Task → Prop
  | .leaf path _ =>
    (∀ r, s.kind r path = some .directory ∧ policy = .skip) ∨
      ∀ r, s.kind r path ≠ some .directory ∧ ∃ e, s.openAsset r path = .error e
  | .directory _ => False
  | _ => True

/-- A name that is barred, or under which something stands. -/
def Resolved (d : Disk) (parent : Place) (name : String) : Prop :=
  d.Barred (parent ++ [name]) ∨ (d.Opens parent name ∧ d.get? (parent ++ [name]) ≠ none)

/-- A task with nothing left to do for it. -/
def Task.Done (s : LiveSource) (policy : EmptyDirectories) (base : Place) (d : Disk)
    (t : Task) : Prop :=
  t.Inert s policy ∨ ∃ names n, t.place? = some ⟨names ++ [n]⟩ ∧
    Resolved d (AssetPath.below ⟨names⟩ base) n.text

/-- Two reports with the same counters of what was written. -/
structure Idle (report report' : Report) : Prop where
  filesCopied : report'.filesCopied = report.filesCopied
  directoriesCreated : report'.directoriesCreated = report.directoriesCreated
  bytesWritten : report'.bytesWritten = report.bytesWritten

theorem idle_refl (report : Report) : Idle report report := ⟨rfl, rfl, rfl⟩

theorem idle_fail (report : Report) (w : Warning) : Idle report (report.fail w) := ⟨rfl, rfl, rfl⟩

theorem idle_leafReport (path : AssetPath) (dest : HostPath) (kind : Option NodeKind)
    (report : Report) {outcome : Except IoError LeafOutcome}
    (h : ∀ n, outcome ≠ .ok (.copied n)) :
    Idle report (leafReport path dest kind report outcome) := by
  match outcome with
  | .ok (.copied n) => exact absurd rfl (h n)
  | .ok .alreadyExists => exact ⟨rfl, rfl, rfl⟩
  | .ok (.writeFailed e) => exact idle_fail _ _
  | .error e =>
      cases kind with
      | none => exact ⟨rfl, rfl, rfl⟩
      | some k => exact idle_fail _ _

section Done

variable {s : LiveSource} {config : ExtractConfig} {base parent : Place} {name : String}
  {known : List AssetPath} {d₀ d d' : Disk} {r : Run} {t : Task}

theorem Resolved.mono (h : d.Extends d') (hr : Resolved d parent name) :
    Resolved d' parent name :=
  hr.imp (fun hb => hb.mono h) fun ⟨ho, hthere⟩ => ⟨ho.mono h, h.ne_none hthere⟩

theorem Task.Done.mono {policy : EmptyDirectories} (h : d.Extends d')
    (hd : t.Done s policy base d) : t.Done s policy base d' :=
  hd.imp_right fun ⟨names, n, hplace, hr⟩ => ⟨names, n, hplace, hr.mono h⟩

theorem Task.Inert.perform (h : t.Inert s config.emptyDirectories) (base : HostPath) (r : Run) :
    (t.perform s config base r).disk = r.disk ∧
      Idle r.report (t.perform s config base r).report := by
  cases t with
  | noticed => exact ⟨rfl, idle_refl _⟩
  | unlistable | invalidName => exact ⟨rfl, idle_fail _ _⟩
  | directory => exact absurd h id
  | leaf path place =>
      have hdisk := extractLeaf_disk s config path (base.under place) r
      rcases h with h | h
      · obtain ⟨hk, hskip⟩ := h r
        have hreport := extractLeaf_report_of_directory hk config (base.under place)
        rw [if_pos hk, hskip] at hdisk
        rw [hskip] at hreport
        exact ⟨hdisk, hreport ▸ idle_refl _⟩
      · have hk := (h r).1
        obtain ⟨e, hopen⟩ := (h (beginLeaf path r)).2
        have hreport := extractLeaf_report hk config (base.under place)
        rw [if_neg hk] at hdisk
        obtain ⟨hsame, hout⟩ := copyLeaf_of_error hopen config (base.under place)
        rw [hsame] at hdisk
        exact ⟨hdisk, hreport ▸ idle_leafReport _ _ _ _ hout⟩

/-- Seeing to a directory leaves its place resolved. -/
theorem resolved_ensureDirectory (hp : r.disk.Plain parent name)
    (hs : r.disk.Opens parent name ∨ r.disk.Barred (parent ++ [name])) :
    Resolved (ensureDirectory ⟨pathOf (parent ++ [name])⟩ r).disk parent name := by
  have hne := Disk.place_ne_nil parent name
  rcases hs with ho | hb
  · rw [ensureDirectory_disk hp ho]
    exact Or.inr ⟨ho.mono (Disk.extends_house hne), Disk.get?_house_ne_none hne⟩
  · rw [ensureDirectory_disk_of_barred hp hb]
    exact Or.inl hb

theorem resolved_copyLeaf {path : AssetPath} {content : Content} (hp : r.disk.Plain parent name)
    (hs : r.disk.Opens parent name ∨ r.disk.Barred (parent ++ [name]))
    (hopen : s.openAsset r path = .ok content) :
    Resolved (copyLeaf s config path ⟨pathOf (parent ++ [name])⟩ r).2.disk parent name := by
  have hne := Disk.place_ne_nil parent name
  rcases hs with ho | hb
  · rw [copyLeaf_disk hp ho]
    unfold leafBytes
    split
    · next hnone =>
        split at hnone
        · next hskip => exact Or.inr ⟨ho, hskip.2⟩
        · rw [hopen] at hnone
          cases hnone
    · next bytes _ =>
        exact Or.inr ⟨ho.mono (Disk.extends_keep hne bytes), Disk.get?_keep_ne_none hne bytes⟩
  · rw [copyLeaf_disk_of_barred hp hb]
    exact Or.inl hb

/-- A task that was done has nothing left to do for it. -/
theorem Underway.done (h : Underway d₀ base known r) (hs : s.ByPath) (hw : t.Within known) :
    t.Done s config.emptyDirectories base (t.perform s config ⟨pathOf base⟩ r).disk := by
  cases hplace : t.place? with
  | none =>
      refine Or.inl ?_
      cases t with
      | noticed | unlistable | invalidName => trivial
      | directory | leaf => cases hplace
  | some place =>
      obtain ⟨names, n, rfl, hmem⟩ := hw place hplace
      have hplain := h.free.plain names n
      have hopens := h.opens_or_barred hmem n
      cases t with
      | noticed | unlistable | invalidName => cases hplace
      | directory q =>
          refine Or.inr ⟨names, n, hplace, ?_⟩
          rw [Task.perform, Option.some.inj hplace, h.free.under, AssetPath.below_snoc]
          exact resolved_ensureDirectory hplain hopens
      | leaf path q =>
          have hdisk := extractLeaf_disk s config path
            ⟨pathOf (AssetPath.below ⟨names⟩ base ++ [n.text])⟩ r
          unfold Task.Done
          rw [Task.perform, Option.some.inj hplace, h.free.under, AssetPath.below_snoc, hdisk]
          by_cases hk : s.kind r path = some .directory
          · rw [if_pos hk]
            cases hempty : config.emptyDirectories with
            | skip => exact Or.inl (Or.inl fun r' => ⟨(hs.kind r' r path).trans hk, rfl⟩)
            | create => exact Or.inr ⟨names, n, rfl, resolved_ensureDirectory hplain hopens⟩
          · rw [if_neg hk]
            cases hopen : s.openAsset (beginLeaf path r) path with
            | error e =>
                refine Or.inl (Or.inr fun r' => ⟨?_, e, ?_⟩)
                · rw [hs.kind r' r]
                  exact hk
                · rw [hs.openAsset r' (beginLeaf path r)]
                  exact hopen
            | ok content =>
                refine Or.inr ⟨names, n, rfl, ?_⟩
                have hplain' : (beginLeaf path r).disk.Plain (AssetPath.below ⟨names⟩ base)
                    n.text := hplain
                exact resolved_copyLeaf hplain' hopens hopen

theorem Underway.all_done (h : Underway d₀ base known r) (hs : s.ByPath)
    (config : ExtractConfig) {tasks : List Task} (ho : Ordered known tasks) :
    ∀ t ∈ tasks, t.Done s config.emptyDirectories base
      (Extraction.performAll s config ⟨pathOf base⟩ tasks r).disk := by
  induction tasks generalizing known r with
  | nil => simp
  | cons t tasks ih =>
      have hnext := h.perform s config ho.1
      -- The rest of the run, seen as a run that starts behind this task.
      have hrest : Underway (t.perform s config ⟨pathOf base⟩ r).disk base (t.seeTo known)
          (t.perform s config ⟨pathOf base⟩ r) :=
        ⟨hnext.free, Disk.Extends.refl _, hnext.settled⟩
      have hend := hrest.performAll s config ho.2
      intro u hu
      rcases List.mem_cons.mp hu with rfl | hu
      · exact (h.done hs ho.1).mono hend.grown
      · exact ih hnext ho.2 u hu

/-! ### A second run without force -/

theorem ensureDirectory_of_resolved (hp : r.disk.Plain parent name)
    (hr : Resolved r.disk parent name) :
    (ensureDirectory ⟨pathOf (parent ++ [name])⟩ r).disk = r.disk ∧
      Idle r.report (ensureDirectory ⟨pathOf (parent ++ [name])⟩ r).report := by
  rcases hr with hb | ⟨ho, hthere⟩
  · obtain ⟨w, hreport⟩ := ensureDirectory_report_of_barred hp hb
    exact ⟨ensureDirectory_disk_of_barred hp hb, hreport ▸ idle_fail _ w⟩
  · obtain ⟨e, he⟩ := Option.ne_none_iff_exists'.mp hthere
    rw [ensureDirectory_disk hp ho, Disk.house_of_some he, ensureDirectory_report hp ho, he]
    refine ⟨rfl, ?_⟩
    cases e with
    | directory => exact idle_refl _
    | file | link | device => exact idle_fail _ _

theorem copyLeaf_of_resolved (s : LiveSource) (hforce : config.force = false) (path : AssetPath)
    (hp : r.disk.Plain parent name) (hr : Resolved r.disk parent name) :
    (copyLeaf s config path ⟨pathOf (parent ++ [name])⟩ r).2.disk = r.disk ∧
      ∀ n, (copyLeaf s config path ⟨pathOf (parent ++ [name])⟩ r).1 ≠ .ok (.copied n) := by
  rcases hr with hb | ⟨ho, hthere⟩
  · refine ⟨copyLeaf_disk_of_barred hp hb, fun n => ?_⟩
    rcases copyLeaf_of_barred s config path hp hb with
      ⟨e, -, hout⟩ | ⟨content, e, -, hout⟩ <;> simp [hout]
  · rw [copyLeaf_of_present hp ho hforce hthere]
    exact ⟨rfl, fun n => by simp⟩

/-- Where nothing is left to do, a task without force does nothing. -/
theorem Task.Done.perform (hfree : r.disk.LinkFreeAt base) (hforce : config.force = false)
    (hd : t.Done s config.emptyDirectories base r.disk) :
    (t.perform s config ⟨pathOf base⟩ r).disk = r.disk ∧
      Idle r.report (t.perform s config ⟨pathOf base⟩ r).report := by
  rcases hd with hinert | ⟨names, n, hplace, hr⟩
  · exact hinert.perform ⟨pathOf base⟩ r
  have hplain := hfree.plain names n
  cases t with
  | noticed | unlistable | invalidName => cases hplace
  | directory q =>
      rw [Task.perform, Option.some.inj hplace, hfree.under, AssetPath.below_snoc]
      exact ensureDirectory_of_resolved hplain hr
  | leaf path q =>
      rw [Task.perform, Option.some.inj hplace, hfree.under, AssetPath.below_snoc]
      have hdisk := extractLeaf_disk s config path
        ⟨pathOf (AssetPath.below ⟨names⟩ base ++ [n.text])⟩ r
      by_cases hk : s.kind r path = some .directory
      · rw [extractLeaf_report_of_directory hk, hdisk, if_pos hk]
        cases config.emptyDirectories with
        | skip => exact ⟨rfl, idle_refl _⟩
        | create => exact ensureDirectory_of_resolved hplain hr
      · have hplain' : (beginLeaf path r).disk.Plain (AssetPath.below ⟨names⟩ base) n.text :=
          hplain
        obtain ⟨hsame, hout⟩ := copyLeaf_of_resolved s hforce path hplain' hr
        rw [extractLeaf_report hk, hdisk, if_neg hk]
        exact ⟨hsame, idle_leafReport _ _ _ _ hout⟩

/-- A second run without force changes nothing and counts nothing that was
written. -/
theorem performAll_idle (config : ExtractConfig) (hfree : r.disk.LinkFreeAt base)
    (hforce : config.force = false) {tasks : List Task}
    (hdone : ∀ t ∈ tasks, t.Done s config.emptyDirectories base r.disk) :
    (performAll s config ⟨pathOf base⟩ tasks r).disk = r.disk ∧
      Idle r.report (performAll s config ⟨pathOf base⟩ tasks r).report := by
  refine performAll_induction (P := fun r' => r'.disk = r.disk ∧ Idle r.report r'.report)
    (fun t ht r' h => ?_) ⟨rfl, idle_refl _⟩
  obtain ⟨hdisk, hidle⟩ := h
  obtain ⟨hdisk', hidle'⟩ := (hdisk ▸ hdone t ht : t.Done s _ base r'.disk).perform
    (hdisk ▸ hfree) hforce
  exact ⟨hdisk'.trans hdisk, hidle'.filesCopied.trans hidle.filesCopied,
    hidle'.directoriesCreated.trans hidle.directoriesCreated,
    hidle'.bytesWritten.trans hidle.bytesWritten⟩

/-! ### A second run with force -/

/-- Where nothing is left to do, a task with force may rewrite a file, and that
is all. -/
theorem Task.Done.sameShape (hfree : r.disk.LinkFreeAt base)
    (hd : t.Done s config.emptyDirectories base r.disk) :
    r.disk.SameShape (t.perform s config ⟨pathOf base⟩ r).disk := by
  rcases hd with hinert | ⟨names, n, hplace, hr⟩
  · rw [(hinert.perform ⟨pathOf base⟩ r).1]
    exact Disk.SameShape.refl _
  have hne := Disk.place_ne_nil (AssetPath.below ⟨names⟩ base) n.text
  rcases Task.laid hfree s config hplace (hr.symm.imp_left And.left) with
    heq | ⟨ho, hlaid⟩
  · rw [heq]
    exact Disk.SameShape.refl _
  have hthere := (hr.resolve_left (ho.not_barred hfree.wellFormed)).2
  rcases hlaid with heq | ⟨bytes, heq⟩ <;> rw [heq]
  · obtain ⟨e, he⟩ := Option.ne_none_iff_exists'.mp hthere
    rw [Disk.house_of_some he]
    exact Disk.SameShape.refl _
  · exact Disk.SameShape.keep_old hne hthere bytes

theorem performAll_sameShape (config : ExtractConfig) {known : List AssetPath}
    (h : Underway d₀ base known r)
    {tasks : List Task} (ho : Ordered known tasks)
    (hdone : ∀ t ∈ tasks, t.Done s config.emptyDirectories base r.disk) :
    r.disk.SameShape (performAll s config ⟨pathOf base⟩ tasks r).disk := by
  induction tasks generalizing known r with
  | nil => exact Disk.SameShape.refl _
  | cons t tasks ih =>
      have hsame := (hdone t (by simp)).sameShape h.free
      exact hsame.trans (ih (h.perform s config ho.1) ho.2 fun u hu =>
        (hdone u (List.mem_cons_of_mem _ hu)).mono hsame.toExtends)

end Done

/-! ## Two runs in step

Two runs of one plan on disks of one shape stay so, even if only one of them
forces: what is missing, both create, and what is there keeps its shape. -/

section Step

variable {s : LiveSource} {config config' : ExtractConfig} {base parent : Place} {name : String}
  {known : List AssetPath} {d₀ d₀' : Disk} {r r' : Run} {t : Task}

theorem ensureDirectory_sameShape (hp : r.disk.Plain parent name) (hp' : r'.disk.Plain parent name)
    (hs : r.disk.Opens parent name ∨ r.disk.Barred (parent ++ [name]))
    (hsame : r.disk.SameShape r'.disk) :
    (ensureDirectory ⟨pathOf (parent ++ [name])⟩ r).disk.SameShape
      (ensureDirectory ⟨pathOf (parent ++ [name])⟩ r').disk := by
  rcases hs with ho | hb
  · rw [ensureDirectory_disk hp ho, ensureDirectory_disk hp' (ho.mono hsame.toExtends)]
    exact hsame.house (Disk.place_ne_nil parent name)
  · rw [ensureDirectory_disk_of_barred hp hb,
      ensureDirectory_disk_of_barred hp' (hb.mono hsame.toExtends)]
    exact hsame

theorem copyLeaf_sameShape_of_present (path : AssetPath) (hp : r.disk.Plain parent name)
    (ho : r.disk.Opens parent name) (hthere : r.disk.get? (parent ++ [name]) ≠ none) :
    r.disk.SameShape (copyLeaf s config path ⟨pathOf (parent ++ [name])⟩ r).2.disk := by
  rw [copyLeaf_disk hp ho]
  cases leafBytes s config path (parent ++ [name]) r with
  | none => exact Disk.SameShape.refl _
  | some bytes => exact Disk.SameShape.keep_old (Disk.place_ne_nil parent name) hthere bytes

theorem copyLeaf_sameShape (hsrc : s.ByPath) (path : AssetPath) (hp : r.disk.Plain parent name)
    (hp' : r'.disk.Plain parent name)
    (hs : r.disk.Opens parent name ∨ r.disk.Barred (parent ++ [name]))
    (hsame : r.disk.SameShape r'.disk) :
    (copyLeaf s config path ⟨pathOf (parent ++ [name])⟩ r).2.disk.SameShape
      (copyLeaf s config' path ⟨pathOf (parent ++ [name])⟩ r').2.disk := by
  rcases hs.symm with hb | ho
  · rw [copyLeaf_disk_of_barred hp hb, copyLeaf_disk_of_barred hp' (hb.mono hsame.toExtends)]
    exact hsame
  have ho' := ho.mono hsame.toExtends
  by_cases hn : r.disk.get? (parent ++ [name]) = none
  · have hn' := hsame.get?_eq_none hn
    rw [copyLeaf_disk hp ho, copyLeaf_disk hp' ho', leafBytes, leafBytes,
      if_neg (fun hc => hc.2 hn), if_neg (fun hc => hc.2 hn'), hsrc.openAsset r r']
    cases s.openAsset r' path with
    | error e => exact hsame
    | ok content => exact hsame.keep_new (Disk.place_ne_nil parent name) hn _ _
  · have hthere' : r'.disk.get? (parent ++ [name]) ≠ none :=
      hsame.toExtends.ne_none hn
    exact ((copyLeaf_sameShape_of_present path hp ho hn).symm.trans hsame).trans
      (copyLeaf_sameShape_of_present path hp' ho' hthere')

theorem extractLeaf_sameShape (hsrc : s.ByPath)
    (hpolicy : config.emptyDirectories = config'.emptyDirectories) (path : AssetPath)
    (hp : r.disk.Plain parent name) (hp' : r'.disk.Plain parent name)
    (hs : r.disk.Opens parent name ∨ r.disk.Barred (parent ++ [name]))
    (hsame : r.disk.SameShape r'.disk) :
    (extractLeaf s config path ⟨pathOf (parent ++ [name])⟩ r).disk.SameShape
      (extractLeaf s config' path ⟨pathOf (parent ++ [name])⟩ r').disk := by
  rw [extractLeaf_disk, extractLeaf_disk, hsrc.kind r r', hpolicy]
  split
  · split
    · exact hsame
    · exact ensureDirectory_sameShape hp hp' hs hsame
  · have hcopy : (copyLeaf s config path _ (beginLeaf path r)).2.disk.SameShape
        (copyLeaf s config' path _ (beginLeaf path r')).2.disk :=
      copyLeaf_sameShape (r := beginLeaf path r) hsrc path hp hp' hs hsame
    exact hcopy

theorem Underway.sameShape (h : Underway d₀ base known r) (h' : Underway d₀' base known r')
    (hsrc : s.ByPath) (hpolicy : config.emptyDirectories = config'.emptyDirectories)
    (hw : t.Within known) (hsame : r.disk.SameShape r'.disk) :
    (t.perform s config ⟨pathOf base⟩ r).disk.SameShape
      (t.perform s config' ⟨pathOf base⟩ r').disk := by
  cases hplace : t.place? with
  | none =>
      rw [(Task.perform_of_none s config ⟨pathOf base⟩ hplace r).1,
        (Task.perform_of_none s config' ⟨pathOf base⟩ hplace r').1]
      exact hsame
  | some place =>
      obtain ⟨names, n, rfl, hmem⟩ := hw place hplace
      have hplain := h.free.plain names n
      have hplain' := h'.free.plain names n
      have hopens := h.opens_or_barred hmem n
      cases t with
      | noticed | unlistable | invalidName => cases hplace
      | directory q =>
          rw [Task.perform, Task.perform, Option.some.inj hplace, h.free.under,
            AssetPath.below_snoc]
          exact ensureDirectory_sameShape hplain hplain' hopens hsame
      | leaf path q =>
          rw [Task.perform, Task.perform, Option.some.inj hplace, h.free.under,
            AssetPath.below_snoc]
          exact extractLeaf_sameShape hsrc hpolicy path hplain hplain' hopens hsame

theorem performAll_in_step (config config' : ExtractConfig) (hsrc : s.ByPath)
    (hpolicy : config.emptyDirectories = config'.emptyDirectories) {tasks : List Task}
    (h : Underway d₀ base known r) (h' : Underway d₀' base known r') (ho : Ordered known tasks)
    (hsame : r.disk.SameShape r'.disk) :
    (performAll s config ⟨pathOf base⟩ tasks r).disk.SameShape
      (performAll s config' ⟨pathOf base⟩ tasks r').disk := by
  induction tasks generalizing known r r' with
  | nil => exact hsame
  | cons t tasks ih =>
      exact ih (h.perform s config ho.1) (h'.perform s config' ho.1) ho.2
        (h.sameShape h' hsrc hpolicy ho.1 hsame)

end Step

/-! ## The bytes that stay

What a file holds after a run with force is what the last task for its place
wrote, and what it held before if there was none. -/

/-- What a task writes to a place that a path leads to, judged by a run `r₀`. -/
def Task.bytesAt (s : LiveSource) (r₀ : Run) (base place : Place) : Task → Option Bytes
  | .leaf path q =>
    if q.below base = place ∧ (pathOf place).utf8ByteSize < Disk.pathLimit ∧
        s.kind r₀ path ≠ some .directory then
      match s.openAsset r₀ path with
      | .error _ => none
      | .ok content => some (Copy.kept (content r₀.disk))
    else none
  | _ => none

/-- What the last task writes that writes to a place. -/
def lastBytes (s : LiveSource) (r₀ : Run) (base place : Place) : List Task → Option Bytes
  | [] => none
  | t :: tasks => (lastBytes s r₀ base place tasks).or (t.bytesAt s r₀ base place)

section Bytes

variable {s : LiveSource} {config : ExtractConfig} {base : Place} {known : List AssetPath}
  {d₀ : Disk} {r r₀ : Run} {t : Task}

theorem file_of_ensureDirectory {parent place : Place} {name : String}
    (hp : r.disk.Plain parent name)
    (hs : r.disk.Opens parent name ∨ r.disk.Barred (parent ++ [name])) {number : Nat}
    {content : Bytes}
    (h : (ensureDirectory ⟨pathOf (parent ++ [name])⟩ r).disk.get? place =
      some (.file number content)) : r.disk.get? place = some (.file number content) := by
  rcases hs with ho | hb
  · rw [ensureDirectory_disk hp ho] at h
    exact Disk.file_of_house (Disk.place_ne_nil parent name) h
  · rw [ensureDirectory_disk_of_barred hp hb] at h
    exact h

/-- Where a task writes nothing it changes no file, and it makes none. -/
theorem Underway.file_of_bytesAt_none (h : Underway d₀ base known r) (hsrc : s.ByPath)
    (hw : t.Within known) {place : Place} (hbytes : t.bytesAt s r₀ base place = none)
    {number : Nat} {content : Bytes}
    (hfile : (t.perform s config ⟨pathOf base⟩ r).disk.get? place = some (.file number content)) :
    r.disk.get? place = some (.file number content) := by
  cases hplace : t.place? with
  | none =>
      rw [(Task.perform_of_none s config ⟨pathOf base⟩ hplace r).1] at hfile
      exact hfile
  | some q =>
      obtain ⟨names, n, rfl, hmem⟩ := hw q hplace
      have hplain := h.free.plain names n
      have hopens := h.opens_or_barred hmem n
      by_cases hother : place ≠ AssetPath.below ⟨names⟩ base ++ [n.text]
      · rw [(Task.laid h.free s config hplace hopens).get?_of_ne hother] at hfile
        exact hfile
      have heq := Decidable.not_not.mp hother
      cases t with
      | noticed | unlistable | invalidName => cases hplace
      | directory q =>
          rw [Task.perform, Option.some.inj hplace, h.free.under, AssetPath.below_snoc] at hfile
          exact file_of_ensureDirectory hplain hopens hfile
      | leaf path q =>
          rw [Task.perform, Option.some.inj hplace, h.free.under, AssetPath.below_snoc,
            extractLeaf_disk] at hfile
          split at hfile
          · split at hfile
            · exact hfile
            · exact file_of_ensureDirectory hplain hopens hfile
          next hk =>
          have hplain' : (beginLeaf path r).disk.Plain (AssetPath.below ⟨names⟩ base) n.text :=
            hplain
          rcases hopens with ho | hb
          · -- The name is open, so only a leaf that cannot be opened writes nothing.
            rw [Task.bytesAt, Option.some.inj hplace, AssetPath.below_snoc, if_pos
              ⟨heq.symm, heq ▸ ho.shortPath, hsrc.kind r r₀ path ▸ hk⟩] at hbytes
            cases hopen : s.openAsset r₀ path with
            | ok content =>
                rw [hopen] at hbytes
                cases hbytes
            | error e =>
                rw [hsrc.openAsset r₀ (beginLeaf path r)] at hopen
                rw [(copyLeaf_of_error hopen config
                  ⟨pathOf (AssetPath.below ⟨names⟩ base ++ [n.text])⟩).1] at hfile
                exact hfile
          · rw [copyLeaf_disk_of_barred hplain' hb] at hfile
            exact hfile

/-- With force a task leaves what it writes. -/
theorem Underway.content_of_bytesAt (h : Underway d₀ base known r) (hsrc : s.ByPath)
    (hforce : config.force = true) (hw : t.Within known) {place : Place} {bytes : Bytes}
    (hbytes : t.bytesAt s r₀ base place = some bytes) {number : Nat} {content : Bytes}
    (hfile : (t.perform s config ⟨pathOf base⟩ r).disk.get? place = some (.file number content)) :
    content = bytes := by
  cases t with
  | noticed | unlistable | invalidName | directory => cases hbytes
  | leaf path q =>
      rw [Task.bytesAt] at hbytes
      split at hbytes
      · next hwrites =>
          obtain ⟨hq, hshort, hk⟩ := hwrites
          obtain ⟨names, n, rfl, hmem⟩ := hw q rfl
          have hplain : (beginLeaf path r).disk.Plain (AssetPath.below ⟨names⟩ base) n.text :=
            h.free.plain names n
          have hkind : ¬ s.kind r path = some .directory := hsrc.kind r r₀ path ▸ hk
          rw [Task.perform, h.free.under, extractLeaf_disk, if_neg hkind] at hfile
          rw [AssetPath.below_snoc] at hfile hq
          subst hq
          rcases h.opens_or_barred hmem n with ho | hb
          · rw [copyLeaf_disk hplain ho, leafBytes,
              if_neg (fun hc => by rw [hforce] at hc; cases hc.1),
              hsrc.openAsset (beginLeaf path r) r₀] at hfile
            cases hopen : s.openAsset r₀ path with
            | error e =>
                rw [hopen] at hbytes
                cases hbytes
            | ok opened =>
                rw [hopen] at hbytes hfile
                rw [Disk.content_of_keep (Disk.place_ne_nil _ _) hfile,
                  ← Option.some.inj hbytes, hsrc.content hopen r₀.disk]
          · rw [copyLeaf_disk_of_barred hplain hb] at hfile
            have hnone := hb.get?_eq_none h.free.wellFormed hshort
            rw [beginLeaf_disk, hnone] at hfile
            cases hfile
      · cases hbytes

theorem file_of_lastBytes_none (config : ExtractConfig) (hsrc : s.ByPath) {tasks : List Task}
    (h : Underway d₀ base known r) (ho : Ordered known tasks) {place : Place}
    (hbytes : lastBytes s r₀ base place tasks = none) {number : Nat} {content : Bytes}
    (hfile : (performAll s config ⟨pathOf base⟩ tasks r).disk.get? place =
      some (.file number content)) : r.disk.get? place = some (.file number content) := by
  induction tasks generalizing known r with
  | nil => exact hfile
  | cons t tasks ih =>
      rw [lastBytes, Option.or_eq_none_iff] at hbytes
      have hnext := ih (h.perform s config ho.1) ho.2 hbytes.1 hfile
      exact h.file_of_bytesAt_none hsrc ho.1 hbytes.2 hnext

theorem content_of_lastBytes (config : ExtractConfig) (hsrc : s.ByPath)
    (hforce : config.force = true)
    {tasks : List Task} (h : Underway d₀ base known r) (ho : Ordered known tasks) {place : Place}
    {bytes : Bytes} (hbytes : lastBytes s r₀ base place tasks = some bytes) {number : Nat}
    {content : Bytes}
    (hfile : (performAll s config ⟨pathOf base⟩ tasks r).disk.get? place =
      some (.file number content)) : content = bytes := by
  induction tasks generalizing known r with
  | nil => cases hbytes
  | cons t tasks ih =>
      have hnext := h.perform s config ho.1
      rw [lastBytes] at hbytes
      cases hrest : lastBytes s r₀ base place tasks with
      | some later =>
          rw [hrest, Option.some_or] at hbytes
          exact ih hnext ho.2 (hrest.trans hbytes) hfile
      | none =>
          rw [hrest, Option.none_or] at hbytes
          exact h.content_of_bytesAt hsrc hforce ho.1 hbytes
            (file_of_lastBytes_none config hsrc hnext ho.2 hrest hfile)

end Bytes

/-! ## The laws -/

section Laws

variable {s : LiveSource} {config : ExtractConfig} {dest : Destination} {disk : Disk}
  {names : List String} {events : List Event}

/-- The tasks of a run of a source whose answers depend on the path alone. -/
def tasksOf (s : LiveSource) (config : ExtractConfig) (dest : Destination)
    (names : List String) : List Task :=
  planRun s config dest.path names { disk := .empty [] }

theorem tasksOf_ordered (s : LiveSource) (config : ExtractConfig) (dest : Destination)
    (names : List String) : Ordered [.root] (tasksOf s config dest names) :=
  planRun_ordered s config dest.path names _

/-- Whatever it runs on, forcing or not, a run performs the same tasks. -/
theorem runLive_tasksOf (config : ExtractConfig) (hs : s.ByPath)
    (hlist : s.list { disk := disk } config.sourceRoot = (.ok names, events)) (force : Bool)
    (d : Disk) :
    runLive s { config with force := force } dest d =
      finish (performAll s { config with force := force } dest.path
        (tasksOf s config dest names) (opening { config with force := force } dest d events)) := by
  have hlist' : s.list { disk := d } { config with force := force }.sourceRoot =
      (.ok names, events) := (hs.list _ _ _).trans hlist
  rw [runLive_of_list hlist', tasksOf,
    planRun_congr { config with force := force } config dest.path hs rfl names _
      { disk := .empty [] }]

/-- A starting node that cannot be listed now cannot be listed later. -/
theorem runLive_refused (config : ExtractConfig) (hs : s.ByPath) {e : IoError}
    (hlist : s.list { disk := disk } config.sourceRoot = (.error e, events)) (force : Bool)
    (d : Disk) :
    runLive s { config with force := force } dest d =
      .refused d events (.listFailed config.sourceRoot.text e) :=
  runLive_of_error ((hs.list _ _ _).trans hlist)

/-- A run with force ends on the same disk, whether or not another run of the
same source went before it. -/
theorem get?_force_after (hs : s.ByPath) (hfree : disk.LinkFreeAt dest.place)
    (hlist : s.list { disk := disk } config.sourceRoot = (.ok names, events)) (place : Place) :
    (runLive s { config with force := true } dest (runLive s config dest disk).disk).disk.get?
        place =
      (runLive s { config with force := true } dest disk).disk.get? place := by
  have hordered := tasksOf_ordered s config dest names
  rw [runLive_tasksOf config hs hlist true, runLive_tasksOf config hs hlist true,
    runLive_tasksOf config hs hlist config.force]
  -- The first run, the second behind it, and the second by itself.
  have hfirst := underway_opening hfree config dest events
  have hend := hfirst.performAll s config hordered
  have hsecond := underway_opening hend.free { config with force := true } dest events
  have halone := underway_opening hfree { config with force := true } dest events
  have hshape := (performAll_sameShape { config with force := true } hsecond hordered
      (hfirst.all_done hs config hordered)).symm.trans
    (performAll_in_step config { config with force := true } hs rfl hfirst halone hordered
      (Disk.SameShape.refl disk))
  refine hshape.get?_eq fun number content content' hfile hfile' => ?_
  cases hlast : lastBytes s { disk := disk } dest.place place (tasksOf s config dest names) with
  | some bytes =>
      rw [content_of_lastBytes _ hs rfl hsecond hordered hlast hfile,
        content_of_lastBytes _ hs rfl halone hordered hlast hfile']
  | none =>
      have hbefore := file_of_lastBytes_none config hs hfirst hordered hlast
        (file_of_lastBytes_none _ hs hsecond hordered hlast hfile)
      have hbefore' := file_of_lastBytes_none _ hs halone hordered hlast hfile'
      have heq := hbefore.symm.trans hbefore'
      simp only [Option.some.injEq, DiskEntry.file.injEq, true_and] at heq
      exact heq

/-- A run without force behind another run of the same source finds everything
done. -/
theorem idle_again (hs : s.ByPath) (hfree : disk.LinkFreeAt dest.place)
    (hlist : s.list { disk := disk } config.sourceRoot = (.ok names, events)) :
    ∃ report,
      (runLive s { config with force := false } dest (runLive s config dest disk).disk).result =
        .ok report ∧
      (runLive s { config with force := false } dest (runLive s config dest disk).disk).disk =
        (runLive s config dest disk).disk ∧ Idle {} report := by
  have hordered := tasksOf_ordered s config dest names
  rw [runLive_tasksOf config hs hlist false, runLive_tasksOf config hs hlist config.force]
  have hfirst := underway_opening hfree config dest events
  have hend := hfirst.performAll s config hordered
  have hsecond := underway_opening hend.free { config with force := false } dest events
  obtain ⟨hdisk, hidle⟩ := performAll_idle { config with force := false }
    hsecond.free rfl (hfirst.all_done hs config hordered)
  exact ⟨_, rfl, hdisk, hidle⟩

end Laws

/-- Running again. For a source whose answers depend on the path alone, a run
without force behind any run changes nothing and counts nothing that was written,
and a run with force behind any run ends on the disk of a run with force alone. -/
theorem runLive_again (s : LiveSource) (hs : s.ByPath) (config : ExtractConfig)
    (dest : Destination) (disk : Disk) (hfree : disk.LinkFreeAt dest.place) :
    let first := runLive s config dest disk
    let again := runLive s { config with force := false } dest first.disk
    let forced := runLive s { config with force := true } dest first.disk
    let alone := runLive s { config with force := true } dest disk
    again.disk = first.disk ∧
      (∀ e, first.result = .error e → again.result = .error e) ∧
      (∀ report, first.result = .ok report → ∃ report', again.result = .ok report' ∧
        report'.filesCopied = 0 ∧ report'.directoriesCreated = 0 ∧ report'.bytesWritten = 0) ∧
      ∀ place, forced.disk.get? place = alone.disk.get? place := by
  intro first again forced alone
  match hlist : s.list { disk := disk } config.sourceRoot with
  | (.error e, events) =>
      have hfirst : first = .refused disk events (.listFailed config.sourceRoot.text e) :=
        runLive_refused config hs hlist config.force disk
      have hagain : again = .refused first.disk events (.listFailed config.sourceRoot.text e) :=
        runLive_refused config hs hlist false first.disk
      have hforced : forced = .refused first.disk events (.listFailed config.sourceRoot.text e) :=
        runLive_refused config hs hlist true first.disk
      have halone : alone = .refused disk events (.listFailed config.sourceRoot.text e) :=
        runLive_refused config hs hlist true disk
      rw [hagain, hforced, halone, hfirst]
      exact ⟨rfl, fun e' he' => he', fun report hreport => (by cases hreport), fun place => rfl⟩
  | (.ok names, events) =>
      obtain ⟨report, hreport, hdisk, hidle⟩ := idle_again hs hfree hlist
      refine ⟨hdisk, fun e he => ?_, fun _ _ => ⟨report, hreport, hidle.filesCopied,
        hidle.directoriesCreated, hidle.bytesWritten⟩, get?_force_after hs hfree hlist⟩
      have hok : ∃ report', first.result = .ok report' := by
        have hrun := @runLive_tasksOf s dest disk names events config hs hlist config.force disk
        exact ⟨_, congrArg Outcome.result hrun⟩
      obtain ⟨report', hok⟩ := hok
      rw [hok] at he
      cases he

/-- A source that lists one asset twice, whose reader breaks half-way. -/
def brokenSource : LiveSource where
  list _ path := (.ok (if path = .root then ["a", "..", "a"] else []), [])
  kind _ _ := none
  openAsset _ path :=
    if path = .root then .error .noEntry else .ok fun _ => [.data [1, 2] none, .fault .noSpace]
  depthLimit := 1
  list_deep r path hdeep names hnames := by
    rw [if_neg (AssetPath.ne_root_of_deep hdeep)] at hnames
    exact (Except.ok.inj hnames).symm

theorem brokenSource_byPath : brokenSource.ByPath := by
  refine ⟨fun _ _ _ => rfl, fun _ _ _ => rfl, fun _ _ _ => rfl,
    fun {r path content} hopen d d' => ?_⟩
  simp only [brokenSource] at hopen
  split at hopen
  · cases hopen
  · rw [← Except.ok.inj hopen]

theorem runLive_again_broken :
    brokenSource.ByPath ∧ Disk.small.LinkFreeAt ["out"] ∧
      (runLive brokenSource { force := false } ⟨["out"]⟩
        (runLive brokenSource {} ⟨["out"]⟩ Disk.small).disk).disk =
      (runLive brokenSource {} ⟨["out"]⟩ Disk.small).disk :=
  ⟨brokenSource_byPath, Disk.linkFreeAt_small_out,
    (runLive_again brokenSource brokenSource_byPath {} ⟨["out"]⟩ Disk.small
      Disk.linkFreeAt_small_out).1⟩

end AssetUnpack.Extraction
