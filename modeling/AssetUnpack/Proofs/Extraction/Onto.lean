import AssetUnpack.Proofs.Extraction.Laid
import AssetUnpack.Proofs.Source.Directory

/-!
# A directory extracted onto itself

When source and destination are one directory every leaf is copied onto itself.
With force that empties it: the source opens the file, then the destination
truncates it, and only then it is read. `run_onto_itself` says that no regular
file comes through whose path is made of asset names.

Two inductions lead there. The one over the plan finds the task of each file
(`planNode_visits`): whatever the tasks before it did, the directories on the way
are still there, and a listing leaves nothing out. The other is over the tasks
(`performAll_onto_itself`): a file stays as it is until its own task empties it,
and there is nothing that could fill it again.
-/

namespace AssetUnpack.Extraction

open Disk (pathOf)

/-! ## The plan -/

/-- What leads from a node to a leaf below it leads from the place of the node to
the place of the leaf. -/
def Beside (path place : AssetPath) (tasks : List Task) : Prop :=
  ∀ p q, .leaf p q ∈ tasks → ∃ way, p.names = path.names ++ way ∧ q.names = place.names ++ way

theorem hereditary_beside : Hereditary Beside Beside where
  unlistable path place events e p q h := by simp at h
  leaf path place events p q h := by
    simp only [List.mem_cons, reduceCtorEq, Task.leaf.injEq, List.not_mem_nil, or_false,
      false_or] at h
    obtain ⟨rfl, rfl⟩ := h
    exact ⟨[], by simp, by simp⟩
  directory path place events tasks htasks p q h := by
    simp only [List.mem_cons, reduceCtorEq, false_or] at h
    exact htasks p q h
  nil parent place p q h := by cases h
  fault parent place name e tasks htasks p q h :=
    htasks p q ((List.mem_cons.mp h).resolve_left (by simp))
  name parent place n ts us hts hus p q h := by
    rcases List.mem_append.mp h with h | h
    · obtain ⟨way, hp, hq⟩ := hts p q h
      exact ⟨n :: way, by simp [hp], by simp [hq]⟩
    · exact hus p q h

section Visit

variable {s : LiveSource} {config : ExtractConfig} {root : Place} {d₀ : Disk}
  {known : List AssetPath} {r : Run}

/-- What every visit of a name has among its tasks, a directory that lists the
name has among them. -/
theorem mem_planChildren {parent place : AssetPath} (hd : parent.depth < s.depthLimit)
    {listed : List String} {m : Name} {t : Task} (h : Underway d₀ root known r)
    (hplace : place ∈ known) (hm : m.text ∈ listed)
    (hnode : ∀ r, Underway d₀ root known r →
      t ∈ planNode s config ⟨pathOf root⟩ ⟨parent.names ++ [m]⟩ ⟨place.names ++ [m]⟩ r) :
    t ∈ planChildren s config ⟨pathOf root⟩ parent hd place listed r := by
  induction listed generalizing r with
  | nil => cases hm
  | cons name listed ih =>
      by_cases hname : name = m.text
      · rw [hname, planChildren_of_name hd m.ofString_text]
        exact List.mem_append_left _ (hnode r h)
      have hrest : m.text ∈ listed :=
        (List.mem_cons.mp hm).resolve_left fun heq => hname heq.symm
      cases hn : Name.ofString name with
      | error e =>
          rw [planChildren_of_fault hd hn]
          exact List.mem_cons_of_mem _ (ih ⟨h.free, h.grown, h.settled⟩ hrest)
      | ok n =>
          rw [planChildren_of_name hd hn]
          have hordered := planNode_ordered s config ⟨pathOf root⟩ ⟨parent.names ++ [n]⟩
            place.names n r hplace
          exact List.mem_append_right _ (ih (h.performAll s config hordered) hrest)

/-- A directory on the way to something lists the next name of the way. -/
theorem list_on_way (h : r.disk.LinkFreeAt root) {names rest : List Name} {m : Name}
    {e : DiskEntry} (hthere : r.disk.get? (AssetPath.below ⟨names ++ m :: rest⟩ root) = some e)
    (hshort : (pathOf (AssetPath.below ⟨names ++ m :: rest⟩ root)).utf8ByteSize <
      Disk.pathLimit) :
    ∃ listed events, (LiveSource.ofSource (.ofDirectory ⟨pathOf root⟩)).list r ⟨names⟩ =
        (.ok listed, events) ∧ m.text ∈ listed := by
  have hplace : AssetPath.below ⟨names ++ m :: rest⟩ root =
      AssetPath.below ⟨names⟩ root ++ m.text :: rest.map (·.text) := by
    simp [AssetPath.below]
  rw [hplace] at hthere hshort
  have hdir := h.wellFormed.directory_above hthere (List.cons_ne_nil _ _)
  obtain ⟨listed, events, hlist, hall⟩ := Directory.list_of_directory h hdir
    (Nat.lt_of_le_of_lt (Disk.utf8ByteSize_pathOf_le _ _) hshort)
  refine ⟨listed, events, ?_, hall m.text fun hnone => ?_⟩
  · show Directory.list r.disk _ = _
    rw [h.under]
    exact hlist
  · rw [List.append_cons] at hthere
    exact h.wellFormed.ne_none_above hthere hnone

/-- The walk of a directory comes to every file below it. -/
theorem planNode_visits {q : AssetPath} {number : Nat} {bytes : Bytes}
    (hfile : d₀.get? (q.below root) = some (.file number bytes))
    (hshort : (pathOf (q.below root)).utf8ByteSize < Disk.pathLimit) {names rest : List Name}
    {n : Name} (hq : q = ⟨names ++ n :: rest⟩) (h : Underway d₀ root known r)
    (hknown : (⟨names⟩ : AssetPath) ∈ known) :
    .leaf q q ∈ planNode (.ofSource (.ofDirectory ⟨pathOf root⟩)) config ⟨pathOf root⟩
      ⟨names ++ [n]⟩ ⟨names ++ [n]⟩ r := by
  induction rest generalizing names n known r with
  | nil =>
      subst hq
      obtain ⟨e, hthere, hshape⟩ := h.grown _ _ hfile
      obtain ⟨content, rfl⟩ := DiskEntry.shape_eq_file.mp hshape
      rw [AssetPath.below_snoc] at hthere hshort
      have hopens := (h.opens_or_barred hknown n).resolve_right fun hb => by
        rw [hb.get?_eq_none h.free.wellFormed hshort] at hthere
        cases hthere
      have hlist : (LiveSource.ofSource (.ofDirectory ⟨pathOf root⟩)).list r ⟨names ++ [n]⟩ =
          (.ok [], []) := by
        show Directory.list r.disk _ = _
        rw [h.free.under, AssetPath.below_snoc]
        exact Directory.list_of_file (h.free.plain names n) hopens hthere
      rw [planNode_of_leaf hlist]
      simp
  | cons m rest ih =>
      obtain ⟨e, hthere, -⟩ := h.grown _ _ hfile
      have hway : q = ⟨(names ++ [n]) ++ m :: rest⟩ := by simp [hq]
      obtain ⟨listed, events, hlist, hm⟩ :=
        list_on_way h.free (hway ▸ hthere) (hway ▸ hshort)
      obtain ⟨name, listed, rfl⟩ := List.exists_cons_of_ne_nil (List.ne_nil_of_mem hm)
      rw [planNode_of_children hlist]
      refine List.mem_cons_of_mem _ (List.mem_cons_of_mem _ ?_)
      have hnoted : Underway d₀ root known (r.noteAll events) := ⟨h.free, h.grown, h.settled⟩
      have hseen := hnoted.perform (.ofSource (.ofDirectory ⟨pathOf root⟩)) config
        (Task.within_of_snoc (t := .directory ⟨names ++ [n]⟩) rfl hknown)
      exact mem_planChildren _ hseen List.mem_cons_self hm fun r' hr' =>
        ih hway hr' List.mem_cons_self

end Visit

/-! ## The run -/

section Run

variable {config : ExtractConfig} {root : Place} {d₀ : Disk} {known : List AssetPath} {r : Run}
  {t : Task} {q : AssetPath} {number : Nat} {bytes : Bytes}

/-- A leaf that is copied onto itself is lost. It is opened before its place is
created, but it is read after that, and then it is empty. -/
theorem copyLeaf_onto_itself (config : ExtractConfig) {base dest : HostPath} {path : AssetPath}
    {r : Run} {place : Place} {created : Disk} {number : Nat} {bytes : Bytes}
    (hforce : config.force = true)
    (hsource : r.disk.resolve (base.under path) = .ok (place, .file number bytes))
    (hdest : r.disk.createFile dest = .ok (place, created)) :
    (copyLeaf (.ofSource (.ofDirectory base)) config path dest r).1 = .ok (.copied 0) ∧
      (copyLeaf (.ofSource (.ofDirectory base)) config path dest r).2.disk.get? place =
        some (.file number []) := by
  have hopen : (LiveSource.ofSource (.ofDirectory base)).openAsset r path =
      .ok fun d => .ofBytes (d.contentAt place) := by
    simp [LiveSource.ofSource, Source.ofDirectory, hsource, DiskEntry.isDirectory]
  have hfile : r.disk.get? place = some (.file number bytes) := by
    unfold Disk.resolve at hsource
    split at hsource
    · cases hsource
    · cases hsource
    · next hfind =>
        obtain ⟨rfl, rfl⟩ := Prod.mk.inj (Except.ok.inj hsource)
        exact Disk.find_truthful hfind
  have hempty : created.get? place = some (.file number []) := by
    have h := Disk.file_of_createFile hdest hfile
    rwa [if_pos rfl] at h
  have hkeeping : created.writerAt place = Writer.keeping :=
    Disk.writerAt_eq_keeping (by rw [hempty]; simp)
  have hread : created.contentAt place = [] := by
    simp only [Disk.contentAt, hempty]
  obtain ⟨hresult, hkept⟩ := Copy.run_keeping []
  unfold copyLeaf
  simp only [hforce, Bool.not_true, Bool.false_and, Bool.false_eq_true, if_false, hopen, hdest,
    Run.call_disk, hread, hkeeping, hresult, List.length_nil, Nat.zero_min, true_and]
  have hwritten := Disk.file_of_setContent hempty place
    (Copy.run Writer.keeping () (Reader.ofBytes [])).sent.written
  rw [if_pos rfl] at hwritten
  rw [hwritten]
  exact congrArg (fun content => some (DiskEntry.file number content)) hkept

/-- A task empties the file that it is for, and leaves every other as it is. -/
theorem Underway.perform_onto_itself (h : Underway d₀ root known r) (hforce : config.force = true)
    (hw : t.Within known) (hbeside : ∀ p q, t = .leaf p q → p = q)
    (hfile : r.disk.get? (q.below root) = some (.file number bytes))
    (hshort : (pathOf (q.below root)).utf8ByteSize < Disk.pathLimit) :
    ∃ content, (t.perform (.ofSource (.ofDirectory ⟨pathOf root⟩)) config ⟨pathOf root⟩ r).disk.get?
        (q.below root) = some (.file number content) ∧
      (content = [] ∨ content = bytes ∧ t ≠ .leaf q q) := by
  cases hplace : t.place? with
  | none =>
      refine ⟨bytes, ?_, Or.inr ⟨rfl, by rintro rfl; cases hplace⟩⟩
      rw [(Task.perform_of_none _ config ⟨pathOf root⟩ hplace r).1]
      exact hfile
  | some place =>
      obtain ⟨names, n, rfl, hmem⟩ := hw place hplace
      have hplain := h.free.plain names n
      have hopens := h.opens_or_barred hmem n
      by_cases hother : q ≠ ⟨names ++ [n]⟩
      · refine ⟨bytes, ?_, Or.inr ⟨rfl, by rintro rfl; exact hother (Option.some.inj hplace)⟩⟩
        rw [(Task.laid h.free _ config hplace hopens).get?_of_ne]
        · exact hfile
        · rw [← AssetPath.below_snoc]
          exact fun heq => hother (AssetPath.below_injective heq)
      obtain rfl := Decidable.not_not.mp hother
      rw [AssetPath.below_snoc] at hfile hshort ⊢
      have ho := hopens.resolve_right fun hb => by
        rw [hb.get?_eq_none h.free.wellFormed hshort] at hfile
        cases hfile
      cases t with
      | noticed | unlistable | invalidName => cases hplace
      | directory p =>
          refine ⟨bytes, ?_, Or.inr ⟨rfl, by simp⟩⟩
          rw [Task.perform, Option.some.inj hplace, h.free.under, AssetPath.below_snoc,
            ensureDirectory_disk hplain ho, Disk.house_of_some hfile]
          exact hfile
      | leaf p p' =>
          obtain rfl := hbeside p p' rfl
          obtain rfl : p = ⟨names ++ [n]⟩ := Option.some.inj hplace
          have hunder := h.free.under ⟨names ++ [n]⟩
          rw [AssetPath.below_snoc] at hunder
          have hsource : r.disk.resolve ((⟨pathOf root⟩ : HostPath).under ⟨names ++ [n]⟩) =
              .ok (AssetPath.below ⟨names⟩ root ++ [n.text], .file number bytes) := by
            rw [hunder, hplain.resolve ho, hfile]
          have hdest : r.disk.createFile ((⟨pathOf root⟩ : HostPath).under ⟨names ++ [n]⟩) =
              .ok (AssetPath.below ⟨names⟩ root ++ [n.text],
                r.disk.put (AssetPath.below ⟨names⟩ root ++ [n.text]) (.file number [])) := by
            rw [hunder, hplain.createFile ho, hfile]
          have hkind : (LiveSource.ofSource (.ofDirectory ⟨pathOf root⟩)).kind r
              ⟨names ++ [n]⟩ ≠ some .directory := by
            simp [LiveSource.ofSource, Source.ofDirectory, hsource, DiskEntry.isDirectory]
          refine ⟨[], ?_, Or.inl rfl⟩
          rw [Task.perform, extractLeaf_disk, if_neg hkind]
          exact (copyLeaf_onto_itself config (r := beginLeaf ⟨names ++ [n]⟩ r) hforce hsource
            hdest).2

theorem performAll_onto_itself {tasks : List Task} (h : Underway d₀ root known r)
    (hforce : config.force = true) (ho : Ordered known tasks)
    (hbeside : ∀ p q, .leaf p q ∈ tasks → p = q)
    (hfile : r.disk.get? (q.below root) = some (.file number bytes))
    (hshort : (pathOf (q.below root)).utf8ByteSize < Disk.pathLimit)
    (hvisit : bytes = [] ∨ .leaf q q ∈ tasks) :
    (performAll (.ofSource (.ofDirectory ⟨pathOf root⟩)) config ⟨pathOf root⟩ tasks r).disk.get?
      (q.below root) = some (.file number []) := by
  induction tasks generalizing known r bytes with
  | nil =>
      obtain rfl := hvisit.resolve_right (by simp)
      exact hfile
  | cons t tasks ih =>
      obtain ⟨content, hnext, hcontent⟩ := h.perform_onto_itself hforce ho.1
        (fun p q hpq => hbeside p q (hpq ▸ List.mem_cons_self)) hfile hshort
      refine ih (h.perform _ config ho.1) ho.2
        (fun p q hpq => hbeside p q (List.mem_cons_of_mem _ hpq)) hnext ?_
      rcases hcontent with hempty | ⟨rfl, hne⟩
      · exact Or.inl hempty
      · exact hvisit.imp_right fun hm => (List.mem_cons.mp hm).resolve_left hne.symm

end Run

/-- A directory that is extracted onto itself with force loses what is in it: every
regular file below it is empty in the end, as long as its path is one of an
asset and is not too long. -/
theorem run_onto_itself (config : ExtractConfig) (hforce : config.force = true)
    (hroot : config.sourceRoot = .root) (dest : Destination) {disk : Disk}
    (hfree : disk.LinkFreeAt dest.place) {q : AssetPath} {number : Nat} {bytes : Bytes}
    (hfile : disk.get? (q.below dest.place) = some (.file number bytes))
    (hshort : (pathOf (q.below dest.place)).utf8ByteSize < Disk.pathLimit) :
    (run (.ofDirectory dest.path) config dest disk).disk.get? (q.below dest.place) =
      some (.file number []) := by
  have hne : q ≠ .root := by
    rintro rfl
    rw [AssetPath.below_root, hfree.directory] at hfile
    cases hfile
  obtain ⟨n, rest, rfl⟩ : ∃ n rest, q = ⟨[] ++ n :: rest⟩ := by
    obtain ⟨names⟩ := q
    obtain ⟨n, rest, rfl⟩ := List.exists_cons_of_ne_nil fun hnil => hne (congrArg _ hnil)
    exact ⟨n, rest, rfl⟩
  obtain ⟨listed, events, hlist, hm⟩ := list_on_way (r := { disk := disk }) hfree hfile hshort
  obtain ⟨name, listed, rfl⟩ := List.exists_cons_of_ne_nil (List.ne_nil_of_mem hm)
  have hlist' : (LiveSource.ofSource (.ofDirectory dest.path)).list { disk := disk }
      config.sourceRoot = (.ok (name :: listed), events) := by
    rw [hroot]
    exact hlist
  have hd : config.sourceRoot.depth <
      (LiveSource.ofSource (.ofDirectory dest.path)).depthLimit :=
    LiveSource.depth_lt_of_list (congrArg Prod.fst hlist')
  have hstart := underway_opening hfree config dest events
  have hordered := planRun_ordered (.ofSource (.ofDirectory dest.path)) config dest.path
    (name :: listed) (opening config dest disk events)
  rw [run, runLive_of_list hlist']
  rw [planRun, dif_pos hd] at hordered ⊢
  refine performAll_onto_itself hstart hforce hordered (fun p q hpq => ?_) hfile hshort
    (Or.inr (mem_planChildren hd hstart List.mem_cons_self hm fun r' hr' => ?_))
  · obtain ⟨way, hp, hq⟩ := hereditary_beside.planChildren _ _ _ _ hd _ _ _ p q hpq
    rw [hroot] at hp
    obtain ⟨names⟩ := p
    obtain ⟨names'⟩ := q
    exact congrArg _ (hp.trans hq.symm)
  · rw [hroot]
    exact planNode_visits hfile hshort rfl hr' List.mem_cons_self

end AssetUnpack.Extraction
