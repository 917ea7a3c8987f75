import AssetUnpack.Proofs.Disk.Stands
import AssetUnpack.Proofs.Extraction.Rerun

/-!
# Two sources side by side

Two runs of different sources can be compared as long as their plans can be laid
beside each other. `Parallel` says when: some tasks of the first plan are for
places that are lost to the second, some leaves in both are broken, and all other
tasks that have a place are in both, in the same order, with the same answers from
both sources.

What a task does is decided by what stands at its place, and by whether its
directory is one. So if both runs start on one disk, they agree ever after about
all places that are neither lost nor broken (`Abreast`), although the disks grow
apart elsewhere and number their files differently. The induction is over the two
plans; each step moves one run at a place that does not count, or both at the
same place.
-/

namespace AssetUnpack.Extraction

open Disk (pathOf)

/-- A task for which two sources give the same answers. -/
def Task.Agreed (s s' : LiveSource) : Task → Prop
  | leaf path _ =>
    ∀ r, s'.kind r path = s.kind r path ∧ s'.openAsset r path = s.openAsset r path
  | _ => True

/-- Two plans that differ in the tasks for lost places and in what breaks. -/
inductive Parallel (s s' : LiveSource) (base : Place) (lost : Place → Prop)
    (broken : AssetPath → Place → Prop) : List Task → List Task → Prop
  | nil : Parallel s s' base lost broken [] []
  | left {t : Task} {ts ts' : List Task} (hplace : t.place? = none)
      (h : Parallel s s' base lost broken ts ts') : Parallel s s' base lost broken (t :: ts) ts'
  | right {t : Task} {ts ts' : List Task} (hplace : t.place? = none)
      (h : Parallel s s' base lost broken ts ts') : Parallel s s' base lost broken ts (t :: ts')
  | lost {t : Task} {q : AssetPath} {ts ts' : List Task} (hplace : t.place? = some q)
      (hlost : lost (q.below base)) (h : Parallel s s' base lost broken ts ts') :
      Parallel s s' base lost broken (t :: ts) ts'
  | broken {path q : AssetPath} {ts ts' : List Task} (hkept : ¬ lost (q.below base))
      (hbroken : broken path (q.below base)) (h : Parallel s s' base lost broken ts ts') :
      Parallel s s' base lost broken (.leaf path q :: ts) (.leaf path q :: ts')
  | both {t : Task} {q : AssetPath} {ts ts' : List Task} (hplace : t.place? = some q)
      (hkept : ¬ lost (q.below base)) (hsound : ∀ path, ¬ broken path (q.below base))
      (hagreed : t.Agreed s s') (h : Parallel s s' base lost broken ts ts') :
      Parallel s s' base lost broken (t :: ts) (t :: ts')

section Plans

variable {s s' : LiveSource} {base : Place} {lost : Place → Prop}
  {broken : AssetPath → Place → Prop} {ts ts' us us' : List Task}

theorem Parallel.append (ht : Parallel s s' base lost broken ts ts')
    (hu : Parallel s s' base lost broken us us') :
    Parallel s s' base lost broken (ts ++ us) (ts' ++ us') := by
  induction ht with
  | nil => exact hu
  | left hplace _ ih => exact .left hplace ih
  | right hplace _ ih => exact .right hplace ih
  | lost hplace hlost _ ih => exact .lost hplace hlost ih
  | broken hkept hbroken _ ih => exact .broken hkept hbroken ih
  | both hplace hkept hsound hagreed _ ih => exact .both hplace hkept hsound hagreed ih

/-- Tasks for lost places have nothing beside them. -/
theorem parallel_lost (s s' : LiveSource)
    (hlost : ∀ t ∈ ts, ∀ q, t.place? = some q → lost (q.below base)) :
    Parallel s s' base lost broken ts [] := by
  induction ts with
  | nil => exact .nil
  | cons t ts ih =>
      have hrest := ih fun u hu => hlost u (List.mem_cons_of_mem _ hu)
      cases hplace : t.place? with
      | none => exact .left hplace hrest
      | some q => exact .lost hplace (hlost t List.mem_cons_self q hplace) hrest

/-- In the second plan nothing is lost, and what is broken is a leaf. -/
theorem Parallel.of_right (h : Parallel s s' base lost broken ts ts') {t : Task} (ht : t ∈ ts')
    {q : AssetPath} (hplace : t.place? = some q) :
    ¬ lost (q.below base) ∧
      ((∃ path, t = .leaf path q ∧ broken path (q.below base)) ∨
        ∀ path, ¬ broken path (q.below base)) := by
  induction h with
  | nil => cases ht
  | left _ _ ih | lost _ _ _ ih => exact ih ht
  | right hnone _ ih =>
      rcases List.mem_cons.mp ht with rfl | ht
      · rw [hnone] at hplace
        cases hplace
      · exact ih ht
  | @broken path q' _ _ hkept hbroken _ ih =>
      rcases List.mem_cons.mp ht with rfl | ht
      · obtain rfl : q' = q := Option.some.inj hplace
        exact ⟨hkept, Or.inl ⟨path, rfl, hbroken⟩⟩
      · exact ih ht
  | both hplace' hkept hsound _ _ ih =>
      rcases List.mem_cons.mp ht with rfl | ht
      · rw [hplace', Option.some.injEq] at hplace
        subst hplace
        exact ⟨hkept, Or.inr hsound⟩
      · exact ih ht

end Plans

/-! ## One place on two disks -/

section Place

variable {s s' : LiveSource} {config : ExtractConfig} {path : AssetPath} {r r' : Run}
  {parent : Place} {name : String}

theorem ensureDirectory_stands (hp : r.disk.Plain parent name) (hp' : r'.disk.Plain parent name)
    (halike : (r.disk.Opens parent name ∧ r'.disk.Opens parent name) ∨
      (r.disk.Barred (parent ++ [name]) ∧ r'.disk.Barred (parent ++ [name])))
    (hsame : r.disk.stands (parent ++ [name]) = r'.disk.stands (parent ++ [name])) :
    (ensureDirectory ⟨pathOf (parent ++ [name])⟩ r).disk.stands (parent ++ [name]) =
      (ensureDirectory ⟨pathOf (parent ++ [name])⟩ r').disk.stands (parent ++ [name]) := by
  have hne := Disk.place_ne_nil parent name
  rcases halike with ⟨ho, ho'⟩ | ⟨hb, hb'⟩
  · rw [ensureDirectory_disk hp ho, ensureDirectory_disk hp' ho', Disk.stands_house hne,
      Disk.stands_house hne, hsame]
  · rw [ensureDirectory_disk_of_barred hp hb, ensureDirectory_disk_of_barred hp' hb']
    exact hsame

/-- Sources that open a leaf alike leave the same bytes. -/
theorem leafBytes_alike (hs : s.ByPath)
    (hopen : ∀ r, s'.openAsset r path = s.openAsset r path) {place : Place}
    (hsame : r.disk.stands place = r'.disk.stands place) :
    leafBytes s config path place r = leafBytes s' config path place r' := by
  have hnone : r.disk.get? place = none ↔ r'.disk.get? place = none := by
    rw [← Disk.stands_eq_none, ← Disk.stands_eq_none, hsame]
  unfold leafBytes
  rw [hopen r', hs.openAsset r' r]
  by_cases hstays : config.force = false ∧ r.disk.get? place ≠ none
  · rw [if_pos hstays, if_pos ⟨hstays.1, mt hnone.mpr hstays.2⟩]
  · have hstays' : ¬ (config.force = false ∧ r'.disk.get? place ≠ none) :=
      fun h => hstays ⟨h.1, mt hnone.mp h.2⟩
    rw [if_neg hstays, if_neg hstays']
    cases hopened : s.openAsset r path with
    | error e => rfl
    | ok content => simp only [hs.content hopened (r.disk.keep place []) (r'.disk.keep place [])]

theorem copyLeaf_stands (hs : s.ByPath) (hopen : ∀ r, s'.openAsset r path = s.openAsset r path)
    (hp : r.disk.Plain parent name) (hp' : r'.disk.Plain parent name)
    (halike : (r.disk.Opens parent name ∧ r'.disk.Opens parent name) ∨
      (r.disk.Barred (parent ++ [name]) ∧ r'.disk.Barred (parent ++ [name])))
    (hsame : r.disk.stands (parent ++ [name]) = r'.disk.stands (parent ++ [name])) :
    (copyLeaf s config path ⟨pathOf (parent ++ [name])⟩ r).2.disk.stands (parent ++ [name]) =
      (copyLeaf s' config path ⟨pathOf (parent ++ [name])⟩ r').2.disk.stands
        (parent ++ [name]) := by
  have hne := Disk.place_ne_nil parent name
  rcases halike with ⟨ho, ho'⟩ | ⟨hb, hb'⟩
  · rw [copyLeaf_disk hp ho, copyLeaf_disk hp' ho', leafBytes_alike hs hopen hsame]
    cases leafBytes s' config path (parent ++ [name]) r' with
    | none => exact hsame
    | some bytes =>
        simp only []
        rw [Disk.stands_keep hne, Disk.stands_keep hne, hsame]
  · rw [copyLeaf_disk_of_barred hp hb, copyLeaf_disk_of_barred hp' hb']
    exact hsame

theorem extractLeaf_stands (hs : s.ByPath)
    (hagreed : ∀ r, s'.kind r path = s.kind r path ∧ s'.openAsset r path = s.openAsset r path)
    (hp : r.disk.Plain parent name) (hp' : r'.disk.Plain parent name)
    (halike : (r.disk.Opens parent name ∧ r'.disk.Opens parent name) ∨
      (r.disk.Barred (parent ++ [name]) ∧ r'.disk.Barred (parent ++ [name])))
    (hsame : r.disk.stands (parent ++ [name]) = r'.disk.stands (parent ++ [name])) :
    (extractLeaf s config path ⟨pathOf (parent ++ [name])⟩ r).disk.stands (parent ++ [name]) =
      (extractLeaf s' config path ⟨pathOf (parent ++ [name])⟩ r').disk.stands
        (parent ++ [name]) := by
  rw [extractLeaf_disk, extractLeaf_disk, (hagreed r').1, hs.kind r' r]
  split
  · cases config.emptyDirectories with
    | skip => exact hsame
    | create => exact ensureDirectory_stands hp hp' halike hsame
  · -- That watchers are told of the leaf first is nothing to the disk.
    have hbegun : (beginLeaf path r).disk.Plain parent name := hp
    have hbegun' : (beginLeaf path r').disk.Plain parent name := hp'
    exact copyLeaf_stands hs (fun r => (hagreed r).2) hbegun hbegun' halike hsame

end Place

/-! ## Two runs -/

/-- A place that is neither lost nor broken. -/
def Spared (lost : Place → Prop) (broken : AssetPath → Place → Prop) (place : Place) : Prop :=
  ¬ lost place ∧ ∀ path, ¬ broken path place

/-- Two runs that started on the same disk and agree about the places that are
spared. -/
structure Abreast (d₀ : Disk) (base : Place) (lost : Place → Prop)
    (broken : AssetPath → Place → Prop) (known known' : List AssetPath) (r r' : Run) : Prop where
  left : Underway d₀ base known r
  right : Underway d₀ base known' r'
  sound : ∀ p ∈ known', ∀ path, ¬ broken path (p.below base)
  level : ∀ place, Spared lost broken place → r.disk.stands place = r'.disk.stands place

section Runs

variable {s s' : LiveSource} {config : ExtractConfig} {d₀ : Disk} {base : Place}
  {lost : Place → Prop} {broken : AssetPath → Place → Prop} {known known' : List AssetPath}
  {r r' : Run} {t : Task}

/-- A task leaves every place alone but its own. -/
theorem Underway.get?_of_ne (h : Underway d₀ base known r) (s : LiveSource)
    (config : ExtractConfig) (hw : t.Within known) {place : Place}
    (hother : ∀ q, t.place? = some q → place ≠ q.below base) :
    (t.perform s config ⟨pathOf base⟩ r).disk.get? place = r.disk.get? place := by
  cases hplace : t.place? with
  | none => rw [(Task.perform_of_none s config ⟨pathOf base⟩ hplace r).1]
  | some q =>
      obtain ⟨names, n, rfl, hmem⟩ := hw q hplace
      have hne := hother _ hplace
      rw [AssetPath.below_snoc] at hne
      exact (Task.laid h.free s config hplace (h.opens_or_barred hmem n)).get?_of_ne hne

theorem Abreast.left_moves (h : Abreast d₀ base lost broken known known' r r') (s : LiveSource)
    (config : ExtractConfig) (hw : t.Within known)
    (hoff : ∀ q, t.place? = some q → ¬ Spared lost broken (q.below base)) :
    Abreast d₀ base lost broken (t.seeTo known) known'
      (t.perform s config ⟨pathOf base⟩ r) r' := by
  refine ⟨h.left.perform s config hw, h.right, h.sound, fun place hspared => ?_⟩
  rw [← h.level place hspared]
  refine Disk.stands_congr (h.left.get?_of_ne s config hw ?_)
  rintro q hplace rfl
  exact hoff q hplace hspared

theorem Abreast.right_moves (h : Abreast d₀ base lost broken known known' r r') (s : LiveSource)
    (config : ExtractConfig) (hw : t.Within known')
    (hoff : ∀ q, t.place? = some q → ¬ Spared lost broken (q.below base))
    (hleaf : t.seeTo known' = known') :
    Abreast d₀ base lost broken known (t.seeTo known') r
      (t.perform s config ⟨pathOf base⟩ r') := by
  refine ⟨h.left, h.right.perform s config hw, hleaf.symm ▸ h.sound, fun place hspared => ?_⟩
  rw [h.level place hspared]
  refine Disk.stands_congr (h.right.get?_of_ne s config hw ?_).symm
  rintro q hplace rfl
  exact hoff q hplace hspared

theorem Abreast.both_move (h : Abreast d₀ base lost broken known known' r r') (hs : s.ByPath)
    (config : ExtractConfig) (hdown : ∀ place name, lost place → lost (place ++ [name]))
    (hw : t.Within known) (hw' : t.Within known') {q : AssetPath} (hplace : t.place? = some q)
    (hspared : Spared lost broken (q.below base)) (hagreed : t.Agreed s s') :
    Abreast d₀ base lost broken (t.seeTo known) (t.seeTo known')
      (t.perform s config ⟨pathOf base⟩ r) (t.perform s' config ⟨pathOf base⟩ r') := by
  refine ⟨h.left.perform s config hw, h.right.perform s' config hw', ?_, fun place hplace' => ?_⟩
  · intro p hp
    cases t with
    | directory place =>
        rcases List.mem_cons.mp hp with rfl | hp
        · obtain rfl : p = q := Option.some.inj hplace
          exact hspared.2
        · exact h.sound p hp
    | noticed | unlistable | invalidName | leaf => exact h.sound p hp
  by_cases hother : place ≠ q.below base
  · -- Elsewhere neither run changes anything.
    have hne (q' : AssetPath) (hq' : t.place? = some q') : place ≠ q'.below base := by
      rw [hplace, Option.some.injEq] at hq'
      exact hq' ▸ hother
    rw [Disk.stands_congr (h.left.get?_of_ne s config hw hne),
      Disk.stands_congr (h.right.get?_of_ne s' config hw' hne)]
    exact h.level place hplace'
  obtain rfl : place = q.below base := Decidable.not_not.mp hother
  have hsame := h.level _ hspared
  obtain ⟨names, n, rfl, hmem⟩ := hw q hplace
  obtain ⟨names', n', heq, hmem'⟩ := hw' _ hplace
  obtain ⟨rfl, -⟩ := List.append_inj' (congrArg AssetPath.names heq) rfl
  rw [AssetPath.below_snoc] at hsame hspared ⊢
  -- The directory of the place is spared as well, so both runs find the same there.
  have hparent : Spared lost broken (AssetPath.below ⟨names⟩ base) :=
    ⟨fun hl => hspared.1 (hdown _ _ hl), h.sound _ hmem'⟩
  have halike := (h.left.settled _ hmem).alike (h.right.settled _ hmem')
    (h.level _ hparent) n.text
  have hplain := h.left.free.plain names n
  have hplain' := h.right.free.plain names n
  cases t with
  | noticed | unlistable | invalidName => cases hplace
  | directory place =>
      rw [Task.perform, Task.perform, Option.some.inj hplace, h.left.free.under,
        AssetPath.below_snoc]
      exact ensureDirectory_stands hplain hplain' halike hsame
  | leaf path place =>
      rw [Task.perform, Task.perform, Option.some.inj hplace, h.left.free.under,
        AssetPath.below_snoc]
      exact extractLeaf_stands hs hagreed hplain hplain' halike hsame

/-- Runs of plans that can be laid beside each other stay abreast. -/
theorem Parallel.abreast (hs : s.ByPath) (config : ExtractConfig)
    (hdown : ∀ place name, lost place → lost (place ++ [name])) {ts ts' : List Task}
    (hplans : Parallel s s' base lost broken ts ts') (ho : Ordered known ts)
    (ho' : Ordered known' ts') (h : Abreast d₀ base lost broken known known' r r') :
    ∃ known known', Abreast d₀ base lost broken known known'
      (performAll s config ⟨pathOf base⟩ ts r) (performAll s' config ⟨pathOf base⟩ ts' r') := by
  induction hplans generalizing known known' r r' with
  | nil => exact ⟨known, known', h⟩
  | left hplace _ ih =>
      refine ih ho.2 ho' (h.left_moves s config ho.1 fun q hq => ?_)
      rw [hplace] at hq
      cases hq
  | right hplace _ ih =>
      refine ih ho ho'.2 (h.right_moves s' config ho'.1 (fun q hq => ?_)
        (Task.seeTo_of_none hplace _))
      rw [hplace] at hq
      cases hq
  | lost hplace hlost _ ih =>
      refine ih ho.2 ho' (h.left_moves s config ho.1 fun q hq hspared => ?_)
      rw [hplace, Option.some.injEq] at hq
      exact hspared.1 (hq ▸ hlost)
  | @broken path q _ _ hkept hbroken _ ih =>
      have hoff : ∀ q', (Task.leaf path q).place? = some q' →
          ¬ Spared lost broken (q'.below base) := by
        intro q' hq hspared
        obtain rfl : q = q' := Option.some.inj hq
        exact hspared.2 path hbroken
      exact ih ho.2 ho'.2
        ((h.left_moves s config ho.1 hoff).right_moves s' config ho'.1 hoff rfl)
  | both hplace hkept hsound hagreed _ ih =>
      exact ih ho.2 ho'.2
        (h.both_move hs config hdown ho.1 ho'.1 hplace ⟨hkept, hsound⟩ hagreed)

/-- What every task keeps true of a place is true of it at the end. -/
theorem Underway.performAll_at (h : Underway d₀ base known r) {tasks : List Task}
    (ho : Ordered known tasks) {place : Place} {P : Option DiskEntry → Prop}
    (hstep : ∀ t ∈ tasks, ∀ known r, Underway d₀ base known r → t.Within known →
      P (r.disk.get? place) → P ((t.perform s config ⟨pathOf base⟩ r).disk.get? place))
    (hr : P (r.disk.get? place)) :
    P ((Extraction.performAll s config ⟨pathOf base⟩ tasks r).disk.get? place) := by
  induction tasks generalizing known r with
  | nil => exact hr
  | cons t tasks ih =>
      exact ih (h.perform s config ho.1) ho.2
        (fun u hu => hstep u (List.mem_cons_of_mem _ hu))
        (hstep t List.mem_cons_self known r h ho.1 hr)

/-- The second run does nothing to a lost place. -/
theorem Parallel.untouched {ts ts' : List Task} (hplans : Parallel s s' base lost broken ts ts')
    (config : ExtractConfig) (h : Underway d₀ base known r) (ho : Ordered known ts')
    {place : Place} (hlost : lost place) :
    (performAll s' config ⟨pathOf base⟩ ts' r).disk.get? place = r.disk.get? place := by
  refine h.performAll_at (P := fun e => e = r.disk.get? place) ho
    (fun t ht known r₁ h₁ hw hsofar => ?_) rfl
  refine (h₁.get?_of_ne s' config hw ?_).trans hsofar
  rintro q hplace rfl
  exact (hplans.of_right ht hplace).1 hlost

end Runs

end AssetUnpack.Extraction
