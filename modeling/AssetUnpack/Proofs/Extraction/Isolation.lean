import AssetUnpack.Proofs.Extraction.Faulty
import AssetUnpack.Proofs.Extraction.Visit
import AssetUnpack.Source.Memory

/-!
# Faults stay where they are

A source and the same source with faults (`Faulty`) are extracted to the same disk.
What becomes of a place is the same for both, unless it is where a faulty node goes
(`MirrorOf`) or, for a node that cannot be listed, lies below that.

For the places that are left out it is said what the faulty source does. Below a
node that cannot be listed nothing is touched, and neither is what stands where an
asset goes that cannot be opened, even with force, because a leaf is opened before
anything is created. Where an asset breaks off, either nothing happened or the file
holds what was delivered until then.

The two walks are followed side by side once, to lay their plans beside each other
(`planNode_parallel`); all the rest is about the plans.
-/

namespace AssetUnpack.Extraction

open Disk (pathOf)

/-- Where the node of a path goes in an extraction from `root` to `base`: to its
names below `root`. If there is nothing below, `root` itself goes there under its
own name. -/
inductive MirrorOf (s : LiveSource) (root : AssetPath) (base : Place) (path : AssetPath)
    (place : Place) : Prop
  | below {q : AssetPath} (hroot : ∀ r, (s.list r root).1 ≠ .ok []) (hq : q ≠ .root)
      (hpath : path = root.append q) (hplace : place = q.below base)
  | alone {name : Name} (hroot : ∀ r, (s.list r root).1 = .ok [])
      (hname : root.fileName? = some name) (hpath : path = root)
      (hplace : place = base ++ [name.text])

section Mirrors

variable {s : LiveSource} {root path path' q : AssetPath} {base place : Place}

/-- Nothing but one node goes to a place. -/
theorem MirrorOf.unique (h : MirrorOf s root base path place)
    (h' : MirrorOf s root base path' place) : path = path' := by
  have start : Run := { disk := .empty [] }
  cases h with
  | @below q hroot hq hpath hplace =>
      cases h' with
      | @below q' _ _ hpath' hplace' =>
          rw [hpath, hpath', AssetPath.below_injective (hplace.symm.trans hplace')]
      | alone hroot' => exact absurd (hroot' start) (hroot start)
  | alone hroot hname hpath hplace =>
      cases h' with
      | below hroot' => exact absurd (hroot start) (hroot' start)
      | alone _ _ hpath' => rw [hpath, hpath']

/-- Nothing goes where the destination itself is. -/
theorem MirrorOf.ne_base (h : MirrorOf s root base path place) : place ≠ base := by
  rintro rfl
  cases h with
  | @below q _ hq _ hplace =>
      have hroot : AssetPath.root.below place = q.below place :=
        (AssetPath.below_root place).trans hplace
      exact hq (AssetPath.below_injective hroot).symm
  | alone _ _ _ hplace => simp at hplace

/-- The base lies above everything that goes there. -/
theorem MirrorOf.base_prefix (h : MirrorOf s root base path place) : base <+: place := by
  cases h with
  | below _ _ _ hplace =>
      rw [hplace]
      exact List.prefix_append _ _
  | alone _ _ _ hplace =>
      rw [hplace]
      exact List.prefix_append _ _

end Mirrors

/-- At or below where a node goes that cannot be listed. -/
def LostTo (s : LiveSource) (root : AssetPath) (base : Place) (unlisted : AssetPath → Prop)
    (place : Place) : Prop :=
  ∃ path mirror, unlisted path ∧ MirrorOf s root base path mirror ∧ mirror <+: place

/-- Where an asset goes that cannot be opened or breaks off. -/
def BrokenAt (s : LiveSource) (root : AssetPath) (base : Place)
    (unopened unread : AssetPath → Prop) (path : AssetPath) (place : Place) : Prop :=
  (unopened path ∨ unread path) ∧ MirrorOf s root base path place

section Lost

variable {s : LiveSource} {root : AssetPath} {base : Place} {unlisted : AssetPath → Prop}

theorem LostTo.append {place : Place} (h : LostTo s root base unlisted place) (name : String) :
    LostTo s root base unlisted (place ++ [name]) := by
  obtain ⟨path, mirror, hpath, hmirror, hpre⟩ := h
  exact ⟨path, mirror, hpath, hmirror, hpre.trans (List.prefix_append _ _)⟩

theorem not_lostTo_base : ¬ LostTo s root base unlisted base := by
  rintro ⟨path, mirror, -, hmirror, hpre⟩
  exact hmirror.ne_base (hpre.eq_of_length_le hmirror.base_prefix.length_le)

/-- A node below one that is not lost is lost only if it cannot be listed itself. -/
theorem not_lostTo_child {q : AssetPath} {n : Name}
    (hkept : ¬ LostTo s root base unlisted (q.below base))
    (hlisted : ¬ unlisted (root.append (q.child n))) (hroot : ∀ r, (s.list r root).1 ≠ .ok []) :
    ¬ LostTo s root base unlisted ((q.child n).below base) := by
  rintro ⟨path, mirror, hpath, hmirror, hpre⟩
  have hsnoc : (q.child n).below base = q.below base ++ [n.text] := AssetPath.below_snoc _ _ _
  rw [hsnoc, List.prefix_concat_iff] at hpre
  rcases hpre with heq | habove
  · cases hmirror with
    | @below q' _ _ hpath' hplace =>
        rw [hplace, ← hsnoc] at heq
        rw [hpath', AssetPath.below_injective heq] at hpath
        exact hlisted hpath
    | alone hroot' =>
        have start : Run := { disk := .empty [] }
        exact hroot start (hroot' start)
  · exact hkept ⟨path, mirror, hpath, hmirror, habove⟩

end Lost

/-! ## The two plans -/

/-- Tasks that lay something out at a place or below it only. -/
def Sheltered (place : AssetPath) (tasks : List Task) : Prop :=
  ∀ t ∈ tasks, ∀ q, t.place? = some q → place.names <+: q.names

theorem sheltered_cons {place : AssetPath} {t : Task} {tasks : List Task}
    (ht : ∀ q, t.place? = some q → place.names <+: q.names) (h : Sheltered place tasks) :
    Sheltered place (t :: tasks) := by
  intro u hu
  rcases List.mem_cons.mp hu with rfl | hu
  · exact ht
  · exact h u hu

theorem hereditary_sheltered : Hereditary (fun _ => Sheltered) fun _ => Sheltered where
  unlistable _ _ _ _ := by simp [Sheltered, Task.place?]
  leaf _ _ _ := by simp [Sheltered, Task.place?]
  directory _ place _ _ htasks :=
    sheltered_cons (by simp [Task.place?])
      (sheltered_cons (fun _ hq => Option.some.inj hq ▸ List.prefix_refl _) htasks)
  nil _ _ := by simp [Sheltered]
  fault _ _ _ _ _ htasks := sheltered_cons (by simp [Task.place?]) htasks
  name _ place n ts us hts hus := by
    intro t ht q hq
    rcases List.mem_append.mp ht with ht | ht
    · exact (List.prefix_append _ _).trans (hts t ht q hq)
    · exact hus t ht q hq

section Plans

variable {s s' : LiveSource} {root : AssetPath} {unlisted unopened unread : AssetPath → Prop}

/-- A leaf stands in both plans, broken or not. -/
theorem Faulty.leaf_parallel (h : Faulty s s' root unlisted unopened unread) {base : Place}
    {path q : AssetPath} (hmirror : MirrorOf s root base path (q.below base))
    (hkept : ¬ LostTo s root base unlisted (q.below base)) :
    Parallel s s' base (LostTo s root base unlisted) (BrokenAt s root base unopened unread)
      [.leaf path q] [.leaf path q] := by
  by_cases hbroken : unopened path ∨ unread path
  · exact .broken hkept ⟨hbroken, hmirror⟩ .nil
  · refine .both rfl hkept (fun path' hpath' => ?_) (h.agreed hbroken q) .nil
    exact hbroken (hpath'.2.unique hmirror ▸ hpath'.1)

theorem parallel_noticed {base : Place} {lost : Place → Prop} {broken : AssetPath → Place → Prop}
    (events events' : List Event) {ts ts' : List Task}
    (h : Parallel s s' base lost broken ts ts') :
    Parallel s s' base lost broken (.noticed events :: ts) (.noticed events' :: ts') :=
  .left rfl (.right rfl h)

mutual

theorem planNode_parallel (h : Faulty s s' root unlisted unopened unread)
    (hroot : ∀ r, (s.list r root).1 ≠ .ok []) (config : ExtractConfig) (base : Place)
    (path q : AssetPath) (n : Name) (hpath : path = root.append (q.child n))
    (hkept : ¬ LostTo s root base unlisted (q.below base)) (r r' : Run) :
    Parallel s s' base (LostTo s root base unlisted) (BrokenAt s root base unopened unread)
      (planNode s config ⟨pathOf base⟩ path (q.child n) r)
      (planNode s' config ⟨pathOf base⟩ path (q.child n) r') := by
  have hmirror : MirrorOf s root base path ((q.child n).below base) :=
    .below hroot (AssetPath.child_ne_root q n) hpath rfl
  by_cases hlost : unlisted path
  · -- Whatever the first walk goes on to is below a place that is lost to the second.
    obtain ⟨e, he⟩ := h.list_fails path hlost r'
    have hlist : s'.list r' path = (.error e, (s'.list r' path).2) := Prod.ext he rfl
    have hsheltered := hereditary_sheltered.planNode s config ⟨pathOf base⟩ path (q.child n) r
    have hbelow : ∀ t ∈ planNode s config ⟨pathOf base⟩ path (q.child n) r, ∀ q',
        t.place? = some q' → LostTo s root base unlisted (q'.below base) :=
      fun t ht q' hq' =>
        ⟨path, _, hlost, hmirror, AssetPath.below_prefix base (hsheltered t ht q' hq')⟩
    have hplans := (parallel_lost s s' hbelow).append
      (.right rfl (.right rfl .nil) : Parallel s s' base _
        (BrokenAt s root base unopened unread) []
        [.noticed (s'.list r' path).2, .unlistable path e])
    rw [planNode_of_error hlist]
    rwa [List.append_nil, List.nil_append] at hplans
  have hkept' := not_lostTo_child hkept (hpath ▸ hlost) hroot
  match hlist : s.list r path with
  | (.error e, events) =>
      obtain ⟨events', hlist'⟩ := h.list_eq hlost hlist r'
      rw [planNode_of_error hlist, planNode_of_error hlist']
      exact parallel_noticed _ _ (.left rfl (.right rfl .nil))
  | (.ok [], events) =>
      obtain ⟨events', hlist'⟩ := h.list_eq hlost hlist r'
      rw [planNode_of_leaf hlist, planNode_of_leaf hlist']
      exact parallel_noticed _ _ (h.leaf_parallel hmirror hkept')
  | (.ok (name :: names), events) =>
      obtain ⟨events', hlist'⟩ := h.list_eq hlost hlist r'
      have hd : path.depth < s.depthLimit := LiveSource.depth_lt_of_list (by rw [hlist])
      have hd' : path.depth < s'.depthLimit := LiveSource.depth_lt_of_list (by rw [hlist'])
      rw [planNode_of_children hlist, planNode_of_children hlist']
      -- Only what has no names below it breaks.
      have hsound (path' : AssetPath) :
          ¬ BrokenAt s root base unopened unread path' ((q.child n).below base) := by
        rintro ⟨hbroken, hmirror'⟩
        rw [hmirror'.unique hmirror] at hbroken
        have hchildless := (h.leaf path hbroken r).1
        rw [hlist] at hchildless
        cases hchildless
      exact parallel_noticed _ _ (.both rfl hkept' hsound trivial
        (planChildren_parallel h hroot config base path (q.child n) hpath hkept' hd hd'
          (name :: names) _ _))
termination_by (s.depthLimit - path.depth, 1, 0)

theorem planChildren_parallel (h : Faulty s s' root unlisted unopened unread)
    (hroot : ∀ r, (s.list r root).1 ≠ .ok []) (config : ExtractConfig) (base : Place)
    (parent q : AssetPath) (hparent : parent = root.append q)
    (hkept : ¬ LostTo s root base unlisted (q.below base))
    (hd : parent.depth < s.depthLimit) (hd' : parent.depth < s'.depthLimit)
    (names : List String) (r r' : Run) :
    Parallel s s' base (LostTo s root base unlisted) (BrokenAt s root base unopened unread)
      (planChildren s config ⟨pathOf base⟩ parent hd q names r)
      (planChildren s' config ⟨pathOf base⟩ parent hd' q names r') := by
  match names with
  | [] =>
      rw [planChildren_nil, planChildren_nil]
      exact .nil
  | name :: names =>
      cases hn : Name.ofString name with
      | error e =>
          rw [planChildren_of_fault hd hn, planChildren_of_fault hd' hn]
          exact .left rfl (.right rfl
            (planChildren_parallel h hroot config base parent q hparent hkept hd hd' names _ _))
      | ok n =>
          rw [planChildren_of_name hd hn, planChildren_of_name hd' hn]
          have hpath : (⟨parent.names ++ [n]⟩ : AssetPath) = root.append (q.child n) := by
            rw [AssetPath.append_child, ← hparent]
            rfl
          exact (planNode_parallel h hroot config base ⟨parent.names ++ [n]⟩ q n hpath hkept
            r r').append
            (planChildren_parallel h hroot config base parent q hparent hkept hd hd' names _ _)
termination_by (s.depthLimit - parent.depth, 0, names.length)
decreasing_by
  · apply Prod.Lex.right
    apply Prod.Lex.right
    simp
  · apply Prod.Lex.left
    simp only [AssetPath.depth, List.length_append, List.length_singleton] at hd ⊢
    omega
  · apply Prod.Lex.right
    apply Prod.Lex.right
    simp

end

/-- Both runs have plans that can be laid beside each other. -/
theorem planRun_parallel (h : Faulty s s' root unlisted unopened unread) (config : ExtractConfig)
    (hconfig : config.sourceRoot = root) (base : Place) {names : List String} {start : Run}
    (hnames : (s.list start root).1 = .ok names) (r r' : Run) :
    Parallel s s' base (LostTo s root base unlisted) (BrokenAt s root base unopened unread)
      (planRun s config ⟨pathOf base⟩ names r) (planRun s' config ⟨pathOf base⟩ names r') := by
  subst hconfig
  have hnames' := (h.list_same _ h.root_listed start).trans hnames
  cases names with
  | nil =>
      have hroot (r : Run) : (s.list r config.sourceRoot).1 = .ok [] := by
        rw [h.byPath.list r start]
        exact hnames
      have hnothing : Parallel s s' base (LostTo s config.sourceRoot base unlisted)
          (BrokenAt s config.sourceRoot base unopened unread)
          [.noticed [.nothingToExtract config.sourceRoot]]
          [.noticed [.nothingToExtract config.sourceRoot]] := parallel_noticed _ _ .nil
      rw [planRun, planRun, h.kind, h.byPath.kind r' r]
      cases hname : config.sourceRoot.fileName? with
      | none => exact hnothing
      | some name =>
          simp only []
          split
          · exact hnothing
          · refine h.leaf_parallel (.alone hroot hname rfl rfl) ?_
            -- There is nothing but the starting node, and that can be listed.
            rintro ⟨path, mirror, hpath, hmirror, -⟩
            cases hmirror with
            | below hroot' => exact hroot' start (hroot start)
            | alone _ _ heq => exact h.root_listed (heq ▸ hpath)
  | cons name names =>
      have hd : config.sourceRoot.depth < s.depthLimit := LiveSource.depth_lt_of_list hnames
      have hd' : config.sourceRoot.depth < s'.depthLimit := LiveSource.depth_lt_of_list hnames'
      have hroot (r : Run) : (s.list r config.sourceRoot).1 ≠ .ok [] := by
        rw [h.byPath.list r start, hnames]
        simp
      have hbase : ¬ LostTo s config.sourceRoot base unlisted (AssetPath.root.below base) := by
        rw [AssetPath.below_root]
        exact not_lostTo_base
      rw [planRun, planRun, dif_pos hd, dif_pos hd']
      exact planChildren_parallel h hroot config base config.sourceRoot .root
        (AssetPath.append_root _).symm hbase hd hd' (name :: names) r r'

end Plans

/-! ## What the faulty source leaves at a place -/

section Place

variable {s : LiveSource} {config : ExtractConfig} {d₀ : Disk} {base : Place}
  {known : List AssetPath} {r : Run}

/-- A leaf leaves its place as it was, or what it delivered in a file there. -/
theorem Underway.leaf_at (h : Underway d₀ base known r) (hs : s.ByPath) (config : ExtractConfig)
    {path q : AssetPath} (hw : (Task.leaf path q).Within known)
    (hk : s.kind r path ≠ some .directory) (start : Run) :
    ((Task.leaf path q).perform s config ⟨pathOf base⟩ r).disk.get? (q.below base) =
        r.disk.get? (q.below base) ∨
      ∃ content number, s.openAsset start path = .ok content ∧
        ((Task.leaf path q).perform s config ⟨pathOf base⟩ r).disk.get? (q.below base) =
          some (.file number ((content start.disk).deliver Copy.bufferSize).1) := by
  obtain ⟨names, n, rfl, hmem⟩ := hw q rfl
  have hplain : (beginLeaf path r).disk.Plain (AssetPath.below ⟨names⟩ base) n.text :=
    h.free.plain names n
  rw [Task.perform, h.free.under, extractLeaf_disk, if_neg hk, AssetPath.below_snoc]
  rcases h.opens_or_barred hmem n with ho | hb
  · rw [copyLeaf_disk hplain ho, leafBytes, hs.openAsset (beginLeaf path r) start]
    split
    · exact Or.inl rfl
    · next bytes hbytes =>
        split at hbytes
        · cases hbytes
        cases hopen : s.openAsset start path with
        | error e =>
            rw [hopen] at hbytes
            cases hbytes
        | ok content =>
            rw [hopen, Option.some.injEq, Copy.kept_eq_deliver, hs.content hopen _ start.disk]
              at hbytes
            subst hbytes
            rcases Disk.get?_keep_self (Disk.place_ne_nil _ _) r.disk _ with hkept | ⟨number, hkept⟩
            · exact Or.inl hkept
            · exact Or.inr ⟨content, number, rfl, hkept⟩
  · rw [copyLeaf_disk_of_barred hplain hb]
    exact Or.inl rfl

end Place

section Broken

variable {s s' : LiveSource} {root : AssetPath} {unlisted unopened unread : AssetPath → Prop}
  {d₀ : Disk} {base : Place} {known : List AssetPath} {r : Run} {ts ts' : List Task}

/-- Where an asset goes that is broken, only that asset is laid out, if it opens. -/
theorem Faulty.performAll_broken (h : Faulty s s' root unlisted unopened unread)
    (config : ExtractConfig)
    (hplans : Parallel s s' base (LostTo s root base unlisted)
      (BrokenAt s root base unopened unread) ts ts')
    (hunder : Underway d₀ base known r) (ho : Ordered known ts') {path : AssetPath} {mirror : Place}
    (hmirror : MirrorOf s root base path mirror) (hbroken : unopened path ∨ unread path)
    (start : Run) :
    (performAll s' config ⟨pathOf base⟩ ts' r).disk.get? mirror = r.disk.get? mirror ∨
      ∃ part number, s'.openAsset start path = .ok part ∧
        (performAll s' config ⟨pathOf base⟩ ts' r).disk.get? mirror =
          some (.file number ((part start.disk).deliver Copy.bufferSize).1) := by
  refine hunder.performAll_at (P := fun e => e = r.disk.get? mirror ∨ ∃ part number,
    s'.openAsset start path = .ok part ∧
      e = some (.file number ((part start.disk).deliver Copy.bufferSize).1))
    ho (fun t ht known r₁ hunder₁ hw hsofar => ?_) (Or.inl rfl)
  by_cases hhere : ∃ q, t.place? = some q ∧ mirror = q.below base
  · obtain ⟨q, hplace, rfl⟩ := hhere
    rcases (hplans.of_right ht hplace).2 with ⟨path', rfl, hbroken'⟩ | hsound
    · -- Two nodes never go to one place, so this leaf is the broken one.
      obtain rfl := hbroken'.2.unique hmirror
      have hk : s'.kind r₁ path' ≠ some .directory := by
        rw [h.kind]
        exact (h.leaf path' hbroken r₁).2
      rcases hunder₁.leaf_at h.byPath' config hw hk start with hsame | ⟨part, number, hopen, hfile⟩
      · rw [hsame]
        exact hsofar
      · exact Or.inr ⟨part, number, hopen, hfile⟩
    · exact absurd ⟨hbroken, hmirror⟩ (hsound path)
  · rw [hunder₁.get?_of_ne s' config hw fun q hplace heq => hhere ⟨q, hplace, heq⟩]
    exact hsofar

end Broken

/-! ## Both runs -/

/-- Fault isolation. Of two sources that differ in faults only, what becomes of a
place is the same, unless a faulty node goes there or an unlisted one goes there or
above it. Where an unlisted node goes and below, and where an unopened asset goes,
the faulty run changes nothing. Where an asset breaks off it changes nothing or
leaves a file with what was delivered, which is a beginning of the whole asset. -/
theorem runLive_isolates (s s' : LiveSource) (config : ExtractConfig)
    (unlisted unopened unread : AssetPath → Prop)
    (h : Faulty s s' config.sourceRoot unlisted unopened unread) (dest : Destination)
    (disk : Disk) (hfree : disk.LinkFreeAt dest.place) :
    let out := runLive s config dest disk
    let out' := runLive s' config dest disk
    let start : Run := { disk := disk }
    (∀ place, (∀ path mirror, MirrorOf s config.sourceRoot dest.place path mirror →
        (unlisted path → ¬ mirror <+: place) ∧ (unopened path ∨ unread path → place ≠ mirror)) →
        out.disk.stands place = out'.disk.stands place) ∧
      (∀ path mirror, MirrorOf s config.sourceRoot dest.place path mirror → unlisted path →
        ∀ place, mirror <+: place → out'.disk.get? place = disk.get? place) ∧
      (∀ path mirror, MirrorOf s config.sourceRoot dest.place path mirror → unopened path →
        out'.disk.get? mirror = disk.get? mirror) ∧
      ∀ path mirror, MirrorOf s config.sourceRoot dest.place path mirror → unread path →
        out'.disk.get? mirror = disk.get? mirror ∨
          ∃ whole part number, s.openAsset start path = .ok whole ∧
            s'.openAsset start path = .ok part ∧
            Reader.BreaksOff Copy.bufferSize (part disk) (whole disk) ∧
            out'.disk.get? mirror =
              some (.file number ((part disk).deliver Copy.bufferSize).1) := by
  intro out out' start
  match hlist : s.list start config.sourceRoot with
  | (.error e, events) =>
      obtain ⟨events', hlist'⟩ := h.list_eq h.root_listed hlist start
      have hout : out.disk = disk := congrArg Outcome.disk (runLive_of_error hlist)
      have hout' : out'.disk = disk := congrArg Outcome.disk (runLive_of_error hlist')
      rw [hout, hout']
      exact ⟨fun _ _ => rfl, fun _ _ _ _ _ _ => rfl, fun _ _ _ _ => rfl,
        fun _ _ _ _ => Or.inl rfl⟩
  | (.ok names, events) =>
      obtain ⟨events', hlist'⟩ := h.list_eq h.root_listed hlist start
      have hrun : out = finish _ := runLive_of_list hlist
      have hrun' : out' = finish _ := runLive_of_list hlist'
      rw [congrArg Outcome.disk hrun, congrArg Outcome.disk hrun']
      have hunder := underway_opening hfree config dest events
      have hunder' := underway_opening hfree config dest events'
      have ho := planRun_ordered s config dest.path names (opening config dest disk events)
      have ho' := planRun_ordered s' config dest.path names (opening config dest disk events')
      have hnames : (s.list start config.sourceRoot).1 = .ok names := by rw [hlist]
      have hplans := planRun_parallel h config rfl dest.place hnames
        (opening config dest disk events) (opening config dest disk events')
      have hbroken (path : AssetPath) (mirror : Place)
          (hmirror : MirrorOf s config.sourceRoot dest.place path mirror)
          (hpath : unopened path ∨ unread path) :=
        h.performAll_broken config hplans hunder' ho' hmirror hpath start
      refine ⟨fun place hspared => ?_, fun path mirror hmirror hpath place hbelow => ?_,
        fun path mirror hmirror hpath => ?_, fun path mirror hmirror hpath => ?_⟩
      · -- The destination itself is where no node goes, and both runs start there.
        have hsound : ∀ p ∈ [AssetPath.root], ∀ path, ¬ BrokenAt s config.sourceRoot dest.place
            unopened unread path (p.below dest.place) := by
          intro p hp path hbroken
          rw [List.mem_singleton.mp hp, AssetPath.below_root] at hbroken
          exact hbroken.2.ne_base rfl
        have hstart : Abreast disk dest.place
            (LostTo s config.sourceRoot dest.place unlisted)
            (BrokenAt s config.sourceRoot dest.place unopened unread) [.root] [.root]
            (opening config dest disk events) (opening config dest disk events') :=
          ⟨hunder, hunder', hsound, fun _ _ => rfl⟩
        obtain ⟨_, _, hend⟩ := hplans.abreast h.byPath config
          (fun _ name hlost => hlost.append name) ho ho' hstart
        refine hend.level place ⟨?_, fun path hbroken => ?_⟩
        · rintro ⟨path, mirror, hpath, hmirror, hpre⟩
          exact (hspared path mirror hmirror).1 hpath hpre
        · exact (hspared path place hbroken.2).2 hbroken.1 rfl
      · exact hplans.untouched config hunder' ho' ⟨path, mirror, hpath, hmirror, hbelow⟩
      · -- What an unopened asset left would be what it delivered, but it never opens.
        rcases hbroken path mirror hmirror (Or.inl hpath) with hsame | ⟨part, _, hopen, -⟩
        · exact hsame
        · obtain ⟨e, he⟩ := h.open_fails path hpath start
          rw [he] at hopen
          cases hopen
      · rcases hbroken path mirror hmirror (Or.inr hpath) with hsame | ⟨part, number, hopen, hfile⟩
        · exact Or.inl hsame
        · obtain ⟨whole, hwhole, hbreaks⟩ := h.read_fails path hpath start part hopen
          exact Or.inr ⟨whole, part, number, hwhole, hopen, hbreaks disk, hfile⟩

/-- A tree with three files and a directory that has a file in it. -/
def mixedTree : MemoryTree :=
  ((((NodeTree.empty.addChild .root ⟨"part", rfl⟩ (.leaf [1, 2, 3])).addChild .root ⟨"shut", rfl⟩
    (.leaf [4])).addChild .root ⟨"lost", rfl⟩ (.directory [])).addChild ⟨[⟨"lost", rfl⟩]⟩
    ⟨"deep", rfl⟩ (.leaf [5])).addChild .root ⟨"whole", rfl⟩ (.leaf [6])

/-- Two of the bytes of `part` can be read, `shut` cannot be opened, and `lost`
cannot be listed. -/
def mixedFaults : Faults where
  list := Table.empty.put ⟨[⟨"lost", rfl⟩]⟩ .noEntry
  openAsset := Table.empty.put ⟨[⟨"shut", rfl⟩]⟩ .noEntry
  read := Table.empty.put ⟨[⟨"part", rfl⟩]⟩ (2, .noSpace)
  withholdKinds := false

theorem mixed_faulty :
    Faulty (memorySource mixedTree) (.ofSource ((Source.ofMemory mixedTree true).withFaults
      mixedFaults)) .root (mixedFaults.list.get? · ≠ none) (mixedFaults.openAsset.get? · ≠ none)
      (mixedFaults.read.get? · ≠ none) := by
  refine faulty_withFaults ⟨fun _ _ _ => rfl, fun _ _ _ => rfl, fun _ _ _ => rfl,
    fun {r path content} hopen d d' => ?_⟩ mixedFaults .root rfl rfl ?_ ?_
  · have hopen : (mixedTree.leafAt path).map (fun content (_ : Disk) => Reader.ofBytes content) =
        .ok content := hopen
    cases hleaf : mixedTree.leafAt path with
    | error e =>
        rw [hleaf] at hopen
        cases hopen
    | ok bytes =>
        rw [hleaf] at hopen
        rw [← Except.ok.inj hopen]
  · intro path hpath disk
    have hpath : path = ⟨[⟨"shut", rfl⟩]⟩ ∨ path = ⟨[⟨"part", rfl⟩]⟩ := by
      simpa [mixedFaults] using hpath
    have hfile : some NodeKind.file ≠ some .directory := by decide
    rcases hpath with rfl | rfl
    · exact ⟨rfl, hfile⟩
    · exact ⟨rfl, hfile⟩
  · intro path n e hread
    have hpath : path = ⟨[⟨"part", rfl⟩]⟩ ∧ 2 = n ∧ IoError.noSpace = e := by
      simpa [mixedFaults] using hread
    obtain ⟨rfl, rfl, rfl⟩ := hpath
    refine ⟨by decide, fun disk content hopen => ⟨[1, 2, 3], by decide, fun d => ?_⟩⟩
    have hopen : Except.ok (fun _ => Reader.ofBytes [1, 2, 3]) = Except.ok content := hopen
    rw [← Except.ok.inj hopen]

/-- Without anything above it, every node goes to its own names. -/
theorem mixed_mirror {path : AssetPath} {mirror : Place}
    (h : MirrorOf (memorySource mixedTree) .root ["out"] path mirror) :
    mirror = path.below ["out"] := by
  cases h with
  | below _ _ hpath hplace =>
      rw [hplace, hpath]
      rfl
  | alone _ hname => cases hname

theorem runLive_isolates_mixed :
    let broken := LiveSource.ofSource ((Source.ofMemory mixedTree true).withFaults mixedFaults)
    let out := runLive (memorySource mixedTree) { force := true } ⟨["out"]⟩ Disk.small
    let out' := runLive broken { force := true } ⟨["out"]⟩ Disk.small
    Disk.small.LinkFreeAt ["out"] ∧
      out.disk.stands ["out", "whole"] = out'.disk.stands ["out", "whole"] ∧
      out'.disk.get? ["out", "lost", "deep"] = none ∧ out'.disk.get? ["out", "shut"] = none ∧
      (out'.disk.get? ["out", "part"] = none ∨
        ∃ number, out'.disk.get? ["out", "part"] = some (.file number [1, 2])) := by
  intro broken out out'
  have hroot (r : Run) : ((memorySource mixedTree).list r .root).1 ≠ .ok [] := by
    rw [memorySource_list]
    simp [show mixedTree.children .root =
      [⟨"part", rfl⟩, ⟨"shut", rfl⟩, ⟨"lost", rfl⟩, ⟨"whole", rfl⟩] from rfl]
  have hmirror (n : Name) :
      MirrorOf (memorySource mixedTree) .root ["out"] ⟨[n]⟩ ["out", n.text] :=
    .below hroot (AssetPath.child_ne_root .root n) rfl rfl
  obtain ⟨helsewhere, hlost, hshut, hpart⟩ := runLive_isolates (memorySource mixedTree) broken
    { force := true } _ _ _ mixed_faulty ⟨["out"]⟩ Disk.small Disk.linkFreeAt_small_out
  refine ⟨Disk.linkFreeAt_small_out, ?_, ?_, ?_, ?_⟩
  · refine helsewhere ["out", "whole"] fun path mirror h => ⟨fun hpath => ?_, fun hpath => ?_⟩
    · have hpath : path = ⟨[⟨"lost", rfl⟩]⟩ := by simpa [mixedFaults] using hpath
      rw [mixed_mirror h, hpath]
      decide
    · have hpath : path = ⟨[⟨"shut", rfl⟩]⟩ ∨ path = ⟨[⟨"part", rfl⟩]⟩ := by
        simpa [mixedFaults] using hpath
      rw [mixed_mirror h]
      rcases hpath with rfl | rfl <;> decide
  · exact hlost _ _ (hmirror ⟨"lost", rfl⟩) (by decide) _ ⟨["deep"], rfl⟩
  · exact hshut _ _ (hmirror ⟨"shut", rfl⟩) (by decide)
  · rcases hpart _ _ (hmirror ⟨"part", rfl⟩) (by decide) with
      hsame | ⟨_, part, number, _, hopen, _, hfile⟩
    · exact Or.inl hsame
    · have hopen : Except.ok (fun _ => Reader.failAfter .noSpace 2 (.ofBytes [1, 2, 3])) =
          Except.ok part := hopen
      rw [← Except.ok.inj hopen, Reader.deliver_failAfter (by decide) (by decide) (by decide)]
        at hfile
      exact Or.inr ⟨number, hfile⟩

end AssetUnpack.Extraction
