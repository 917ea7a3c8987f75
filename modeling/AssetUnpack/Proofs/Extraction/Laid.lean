import AssetUnpack.Proofs.Disk.Change
import AssetUnpack.Proofs.Extraction.Calls
import AssetUnpack.Proofs.Stream.Copy

/-!
# What is laid out at a place

Where no link is in the way, a task changes at most the place it is for. At an
open name there are two changes: `house` puts a directory where nothing is, and
`keep` leaves bytes in a file; at a barred place nothing changes. `Laid` says so
for every moment of a task, after each of the calls that it makes.

`Underway` is the invariant of a whole run. The destination stays a directory
without links, the disk only grows, and every directory that the run has seen to
is settled, so that nothing that is laid out below it can be in a third state.

Nothing here looks at the source beyond the answers it gives while a task is
done, so it may change its mind between any two of them.
-/

namespace AssetUnpack.Extraction

open Disk (pathOf)

/-! ## The disk after a leaf or a directory

At an open name the entry that stands there decides; at a barred place nothing
changes. -/

section Disk

variable {s : LiveSource} {config : ExtractConfig} {path : AssetPath} {r : Run}
  {parent : Place} {name : String}

theorem ensureDirectory_disk (hp : r.disk.Plain parent name) (ho : r.disk.Opens parent name) :
    (ensureDirectory ⟨pathOf (parent ++ [name])⟩ r).disk = r.disk.house (parent ++ [name]) := by
  have hdir := hp.hasDirectory_iff ho
  have hmake := hp.makeDirectories ho
  unfold ensureDirectory
  cases he : r.disk.get? (parent ++ [name]) with
  | none =>
      rw [he] at hmake
      rw [if_neg (fun hc => by rw [hdir.mp hc] at he; cases he), hmake, Disk.house, he]
      rfl
  | some e =>
      rw [Disk.house_of_some he]
      rw [he] at hmake
      cases e with
      | directory => rw [if_pos (hdir.mpr he)]
      | file | link | device =>
          rw [if_neg (fun hc => by rw [hdir.mp hc] at he; cases he), hmake]
          rfl

theorem ensureDirectory_disk_of_barred (hp : r.disk.Plain parent name)
    (hb : r.disk.Barred (parent ++ [name])) :
    (ensureDirectory ⟨pathOf (parent ++ [name])⟩ r).disk = r.disk := by
  obtain ⟨err, hmake⟩ := hp.makeDirectories_of_barred hb
  unfold ensureDirectory
  rw [hp.hasDirectory_of_barred hb, hmake]
  rfl

/-- What a leaf is to hold when it is copied to a place: nothing if something
stands there that is to stay, or if the source cannot open the leaf. -/
def leafBytes (s : LiveSource) (config : ExtractConfig) (path : AssetPath) (place : Place)
    (r : Run) : Option Bytes :=
  if config.force = false ∧ r.disk.get? place ≠ none then none
  else
    match s.openAsset r path with
    | .error _ => none
    | .ok content => some (Copy.kept (content (r.disk.keep place [])))

theorem copyLeaf_disk (hp : r.disk.Plain parent name) (ho : r.disk.Opens parent name) :
    (copyLeaf s config path ⟨pathOf (parent ++ [name])⟩ r).2.disk =
      match leafBytes s config path (parent ++ [name]) r with
      | none => r.disk
      | some bytes => r.disk.keep (parent ++ [name]) bytes := by
  have hne := Disk.place_ne_nil parent name
  have hentry := hp.hasEntry ho
  have hgoes (hgo : config.force = true ∨
      r.disk.hasEntry ⟨pathOf (parent ++ [name])⟩ = false) :
      ¬ (config.force = false ∧ r.disk.get? (parent ++ [name]) ≠ none) := by
    rintro ⟨hforce, hthere⟩
    rw [hentry, Option.isSome_eq_false_iff, Option.isNone_iff_eq_none] at hgo
    rcases hgo with hgo | hgo
    · rw [hforce] at hgo
      cases hgo
    · exact hthere hgo
  have hcopy := copyLeaf_copying s config path ⟨pathOf (parent ++ [name])⟩ r
  generalize copyLeaf s config path ⟨pathOf (parent ++ [name])⟩ r = out at hcopy ⊢
  cases hcopy with
  | present hforce hthere =>
      rw [hentry, Option.isSome_iff_ne_none] at hthere
      rw [leafBytes, if_pos ⟨hforce, hthere⟩]
  | unopened hgo hopen =>
      rw [leafBytes, if_neg (hgoes hgo), hopen]
  | uncreated hgo hopen hcreate =>
      rw [leafBytes, if_neg (hgoes hgo), hopen]
      exact (Disk.keep_of_other (hp.createFile_error ho hcreate) (by simp) _).symm
  | @written content place created copied _ hgo hopen hcreate hout =>
      obtain ⟨rfl, rfl⟩ := hp.createFile_ok ho hcreate
      rw [leafBytes, if_neg (hgoes hgo), hopen]
      show (r.disk.keep (parent ++ [name]) []).setContent (parent ++ [name]) copied.sent.written =
        r.disk.keep (parent ++ [name]) (Copy.kept (content (r.disk.keep (parent ++ [name]) [])))
      rw [Disk.setContent_keep hne]
      by_cases hdev : ∃ dev, r.disk.get? (parent ++ [name]) = some (.device dev)
      · obtain ⟨dev, hdev⟩ := hdev
        rw [Disk.keep_of_other hdev (by simp), Disk.keep_of_other hdev (by simp)]
      · have hfull : (r.disk.keep (parent ++ [name]) []).get? (parent ++ [name]) ≠
            some (.device .full) := by
          intro hfull
          exact hdev ⟨_, Disk.get?_keep_other hne hfull (by simp)⟩
        rw [hout, Disk.writerAt_eq_keeping hfull, Copy.kept]

theorem copyLeaf_disk_of_barred (hp : r.disk.Plain parent name)
    (hb : r.disk.Barred (parent ++ [name])) :
    (copyLeaf s config path ⟨pathOf (parent ++ [name])⟩ r).2.disk = r.disk := by
  obtain ⟨err, herr⟩ := hp.createFile_of_barred hb
  have hcopy := copyLeaf_copying s config path ⟨pathOf (parent ++ [name])⟩ r
  generalize copyLeaf s config path ⟨pathOf (parent ++ [name])⟩ r = out at hcopy ⊢
  cases hcopy with
  | present | unopened | uncreated => rfl
  | written hgo hopen hcreate hout =>
      rw [herr] at hcreate
      cases hcreate

end Disk

/-! ## One place at a time

Where no link is in the way, what is asked for one place changes that place
alone, and this holds after each of the calls. -/

/-- What may have become of a disk on behalf of `name` in `parent`. -/
def Laid (parent : Place) (name : String) (d d' : Disk) : Prop :=
  d' = d ∨ (d.Opens parent name ∧
    (d' = d.house (parent ++ [name]) ∨ ∃ bytes, d' = d.keep (parent ++ [name]) bytes))

/-- Whether a call is about a place: it names the place's path or writes there. -/
def DiskCall.About (place : Place) : DiskCall → Prop
  | .createFile path | .makeDirectories path => path = ⟨pathOf place⟩
  | .write written _ => written = place

section Laying

variable {d d' : Disk} {parent : Place} {name : String} {force : Bool} {cs : List DiskCall}

theorem Asked.about (hp : d.Plain parent name)
    (hs : d.Opens parent name ∨ d.Barred (parent ++ [name]))
    (h : Asked force ⟨pathOf (parent ++ [name])⟩ d cs) : ∀ c ∈ cs, c.About (parent ++ [name]) := by
  cases h with
  | nothing => simp
  | directory | refused => simp [DiskCall.About]
  | file bytes hcreate =>
      rcases hs with ho | hb
      · obtain ⟨rfl, -⟩ := hp.createFile_ok ho hcreate
        simp [DiskCall.About]
      · obtain ⟨err, herr⟩ := hp.createFile_of_barred hb
        rw [herr] at hcreate
        cases hcreate

theorem Asked.laid (hp : d.Plain parent name)
    (hs : d.Opens parent name ∨ d.Barred (parent ++ [name]))
    (h : Asked force ⟨pathOf (parent ++ [name])⟩ d cs) {pre : List DiskCall} (hpre : pre <+: cs) :
    Laid parent name d (replay d pre) := by
  have hsame : Laid parent name d (replay d []) := Or.inl rfl
  cases h with
  | nothing => rwa [List.prefix_nil.mp hpre]
  | directory =>
      rcases List.prefix_cons_iff.mp hpre with rfl | ⟨rest, rfl, hrest⟩
      · exact hsame
      rw [List.prefix_nil.mp hrest]
      rcases hs with ho | hb
      · refine Or.inr ⟨ho, Or.inl ?_⟩
        simp only [replay, List.foldl_cons, List.foldl_nil, DiskCall.carryOut]
        rw [hp.makeDirectories ho, Disk.house]
        cases d.get? (parent ++ [name]) with
        | none => rfl
        | some e => cases e <;> rfl
      · obtain ⟨err, hmake⟩ := hp.makeDirectories_of_barred hb
        refine Or.inl ?_
        simp only [replay, List.foldl_cons, List.foldl_nil, DiskCall.carryOut, hmake]
  | refused hcreate =>
      rcases List.prefix_cons_iff.mp hpre with rfl | ⟨rest, rfl, hrest⟩
      · exact hsame
      rw [List.prefix_nil.mp hrest]
      refine Or.inl ?_
      simp only [replay, List.foldl_cons, List.foldl_nil, DiskCall.carryOut, hcreate]
  | file bytes hcreate =>
      rcases hs with ho | hb
      · obtain ⟨rfl, rfl⟩ := hp.createFile_ok ho hcreate
        rcases List.prefix_cons_iff.mp hpre with rfl | ⟨rest, rfl, hrest⟩
        · exact hsame
        refine Or.inr ⟨ho, Or.inr ?_⟩
        rcases List.prefix_cons_iff.mp hrest with rfl | ⟨last, rfl, hlast⟩
        · refine ⟨[], ?_⟩
          simp only [replay, List.foldl_cons, List.foldl_nil, DiskCall.carryOut, hcreate]
        · refine ⟨bytes, ?_⟩
          rw [List.prefix_nil.mp hlast]
          simp only [replay, List.foldl_cons, List.foldl_nil, DiskCall.carryOut, hcreate]
          exact Disk.setContent_keep (Disk.place_ne_nil parent name) _ _
      · obtain ⟨err, herr⟩ := hp.createFile_of_barred hb
        rw [herr] at hcreate
        cases hcreate

theorem Laid.extends (h : Laid parent name d d') : d.Extends d' := by
  have hne := Disk.place_ne_nil parent name
  rcases h with heq | ⟨-, heq | ⟨bytes, heq⟩⟩ <;> rw [heq]
  · exact Disk.Extends.refl _
  · exact Disk.extends_house hne
  · exact Disk.extends_keep hne bytes

theorem Laid.get?_of_ne (h : Laid parent name d d') {q : Place} (hq : q ≠ parent ++ [name]) :
    d'.get? q = d.get? q := by
  have hne := Disk.place_ne_nil parent name
  rcases h with heq | ⟨-, heq | ⟨bytes, heq⟩⟩ <;> rw [heq]
  · exact Disk.get?_house_of_ne hne hq
  · exact Disk.get?_keep_of_ne hne hq bytes

theorem Laid.linkFreeAt (h : Laid parent name d d') {base : Place} (hfree : d.LinkFreeAt base)
    (hname : EntryName name) : d'.LinkFreeAt base := by
  rcases h with heq | ⟨ho, heq | ⟨bytes, heq⟩⟩ <;> rw [heq]
  · exact hfree
  · exact hfree.house ho hname
  · exact hfree.keep ho hname bytes

end Laying

/-! ## A run on its way -/

/-- What holds of a run into `base` that started on `d₀` and has seen to the
directories `known`. -/
structure Underway (d₀ : Disk) (base : Place) (known : List AssetPath) (r : Run) : Prop where
  free : r.disk.LinkFreeAt base
  grown : d₀.Extends r.disk
  settled : ∀ p ∈ known, r.disk.Settled (p.below base)

section Run

variable {d₀ : Disk} {base : Place} {known : List AssetPath} {r : Run} {t : Task}

theorem underway_opening (h : d₀.LinkFreeAt base) (config : ExtractConfig) (dest : Destination)
    (events : List Event) : Underway d₀ base [.root] (opening config dest d₀ events) := by
  refine ⟨h, Disk.Extends.refl d₀, fun p hp => ?_⟩
  rw [List.mem_singleton.mp hp, AssetPath.below_root]
  exact Or.inl h.directory

theorem Underway.opens_or_barred (h : Underway d₀ base known r) {names : List Name}
    (hknown : (⟨names⟩ : AssetPath) ∈ known) (n : Name) :
    r.disk.Opens (AssetPath.below ⟨names⟩ base) n.text ∨
      r.disk.Barred (AssetPath.below ⟨names⟩ base ++ [n.text]) :=
  (h.settled _ hknown).opens_or_barred n.text

/-- The calls for an asset below a link-free directory, and what they do. -/
theorem Task.asked (h : r.disk.LinkFreeAt base) (s : LiveSource) (config : ExtractConfig)
    {names : List Name} {n : Name} (hplace : t.place? = some ⟨names ++ [n]⟩) :
    ∃ cs, Asked config.force ⟨pathOf (AssetPath.below ⟨names⟩ base ++ [n.text])⟩ r.disk cs ∧
      (t.perform s config ⟨pathOf base⟩ r).calls = r.calls ++ cs ∧
      (t.perform s config ⟨pathOf base⟩ r).disk = replay r.disk cs := by
  have hadv := Task.perform_advances s config ⟨pathOf base⟩ hplace r
  rw [h.under, AssetPath.below_snoc] at hadv
  exact hadv

/-- What a task lays out at a name that is open or barred. -/
theorem Task.laid (h : r.disk.LinkFreeAt base) (s : LiveSource) (config : ExtractConfig)
    {names : List Name} {n : Name} (hplace : t.place? = some ⟨names ++ [n]⟩)
    (hopens : r.disk.Opens (AssetPath.below ⟨names⟩ base) n.text ∨
      r.disk.Barred (AssetPath.below ⟨names⟩ base ++ [n.text])) :
    Laid (AssetPath.below ⟨names⟩ base) n.text r.disk
      (t.perform s config ⟨pathOf base⟩ r).disk := by
  obtain ⟨cs, hasked, -, hdisk⟩ := Task.asked h s config hplace
  rw [hdisk]
  exact hasked.laid (h.plain names n) hopens (List.prefix_refl cs)

/-- A directory that was seen to is settled: it is there, or nothing below it
can ever be. -/
theorem settled_ensureDirectory {parent : Place} {name : String}
    (hp : r.disk.Plain parent name)
    (hs : r.disk.Opens parent name ∨ r.disk.Barred (parent ++ [name])) :
    (ensureDirectory ⟨pathOf (parent ++ [name])⟩ r).disk.Settled (parent ++ [name]) := by
  rcases hs with ho | hb
  · rw [ensureDirectory_disk hp ho]
    cases he : r.disk.get? (parent ++ [name]) with
    | none => exact Or.inl (Disk.get?_house_of_none (Disk.place_ne_nil parent name) he)
    | some e =>
        rw [Disk.house_of_some he]
        by_cases hd : e = .directory
        · exact Or.inl (hd ▸ he)
        · have hblocks := DiskEntry.blocks_of_ne hd (fun t hl => hp.noLink t (hl ▸ he))
          exact Or.inr fun m => Disk.barred_below he hblocks m
  · rw [ensureDirectory_disk_of_barred hp hb]
    exact Or.inr fun m => hb.append [m]

/-- Every task in a known directory keeps the invariant. -/
theorem Underway.perform (h : Underway d₀ base known r) (s : LiveSource)
    (config : ExtractConfig) (hw : t.Within known) :
    Underway d₀ base (t.seeTo known) (t.perform s config ⟨pathOf base⟩ r) := by
  cases hplace : t.place? with
  | none =>
      have hdisk := (Task.perform_of_none s config ⟨pathOf base⟩ hplace r).1
      rw [Task.seeTo_of_none hplace]
      exact ⟨hdisk ▸ h.free, hdisk ▸ h.grown, hdisk ▸ h.settled⟩
  | some place =>
      obtain ⟨names, n, rfl, hmem⟩ := hw place hplace
      have hlaid := Task.laid h.free s config hplace (h.opens_or_barred hmem n)
      refine ⟨hlaid.linkFreeAt h.free n.entryName, h.grown.trans hlaid.extends, fun p hp => ?_⟩
      by_cases hold : p ∈ known
      · exact (h.settled p hold).mono hlaid.extends
      · cases t with
        | noticed | unlistable | invalidName => cases hplace
        | leaf => exact absurd hp hold
        | directory q =>
            obtain rfl : q = ⟨names ++ [n]⟩ := Option.some.inj hplace
            obtain rfl : p = ⟨names ++ [n]⟩ := (List.mem_cons.mp hp).resolve_right hold
            have hset := settled_ensureDirectory (h.free.plain names n)
              (h.opens_or_barred hmem n)
            rw [Task.perform, h.free.under, AssetPath.below_snoc]
            exact hset

/-- Tasks in order keep the invariant, for every directory known before them. -/
theorem Underway.performAll (h : Underway d₀ base known r) (s : LiveSource)
    (config : ExtractConfig) {tasks : List Task} (ho : Ordered known tasks) :
    Underway d₀ base known (performAll s config ⟨pathOf base⟩ tasks r) := by
  have hhere : Underway r.disk base known r := ⟨h.free, Disk.Extends.refl _, h.settled⟩
  obtain ⟨known', hend⟩ := performAll_ordered (P := Underway r.disk base)
    (fun _ _ _ hr hw => hr.perform s config hw) ho hhere
  exact ⟨hend.free, h.grown.trans hend.grown, fun p hp => (h.settled p hp).mono hend.grown⟩

end Run

end AssetUnpack.Extraction
