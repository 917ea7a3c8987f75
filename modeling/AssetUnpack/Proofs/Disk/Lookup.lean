import AssetUnpack.Proofs.Disk.WellFormed

/-!
# What a lookup finds below a link-free directory

The walk along a path is written for disks full of links. Where there are none
it comes down to one question per place. A name in a directory is either *open*,
and then every lookup of it answers with what stands there, or *barred*: above
it something stands that is no directory, or a name on the way or the path as a
whole is too long, and then every lookup fails.

What makes the two useful is that neither changes while a disk grows (`mono`),
and that no third case arises below a *settled* place, one that is a directory
already or that bars everything below it. The third case would be a missing
directory, which a later change could supply.
-/

namespace AssetUnpack

namespace Disk

/-- A name in a directory that a lookup gets to. -/
structure Opens (d : Disk) (parent : Place) (name : String) : Prop where
  directory : d.get? parent = some .directory
  shortName : name.utf8ByteSize ≤ nameLimit
  shortPath : (pathOf (parent ++ [name])).utf8ByteSize < pathLimit

/-- A place that no lookup gets to, whatever becomes of the disk. -/
inductive Barred (d : Disk) (place : Place) : Prop
  | blocked {a b : Place} {e : DiskEntry} (h : place = a ++ b) (hb : b ≠ [])
      (ha : d.get? a = some e) (he : e.blocks = true)
  | longName {a b : Place} {name : String} (h : place = a ++ name :: b)
      (ha : d.get? a = some .directory) (hn : nameLimit < name.utf8ByteSize)
  | longPath (h : pathLimit ≤ (pathOf place).utf8ByteSize)

/-- A place below which every name is open or barred. -/
def Settled (d : Disk) (place : Place) : Prop :=
  d.get? place = some .directory ∨ ∀ name, d.Barred (place ++ [name])

theorem Opens.mono {d d' : Disk} (h : d.Extends d') {parent : Place} {name : String}
    (ho : d.Opens parent name) : d'.Opens parent name :=
  ⟨h.directory ho.directory, ho.shortName, ho.shortPath⟩

theorem Barred.mono {d d' : Disk} (h : d.Extends d') {place : Place} (hb : d.Barred place) :
    d'.Barred place := by
  cases hb with
  | blocked hp hne ha he =>
      obtain ⟨e', ha', hs⟩ := h _ _ ha
      exact .blocked hp hne ha' (by rw [DiskEntry.blocks_of_shape hs, he])
  | longName hp ha hn => exact .longName hp (h.directory ha) hn
  | longPath hp => exact .longPath hp

theorem Settled.mono {d d' : Disk} (h : d.Extends d') {place : Place} (hs : d.Settled place) :
    d'.Settled place := by
  rcases hs with hs | hs
  · exact Or.inl (h.directory hs)
  · exact Or.inr fun name => (hs name).mono h

theorem Barred.append {d : Disk} {place : Place} (hb : d.Barred place) (more : Place) :
    d.Barred (place ++ more) := by
  cases hb with
  | @blocked a b e hp hne ha he =>
      exact .blocked (by rw [hp, List.append_assoc])
        (List.append_ne_nil_of_left_ne_nil hne more) ha he
  | @longName a b name hp ha hn =>
      exact .longName (by rw [hp, List.append_assoc, List.cons_append]) ha hn
  | longPath hp => exact .longPath (Nat.le_trans hp (utf8ByteSize_pathOf_le _ _))

/-- What stands in the way bars everything below it. -/
theorem barred_below {d : Disk} {place : Place} {e : DiskEntry} (h : d.get? place = some e)
    (he : e.blocks = true) (name : String) : d.Barred (place ++ [name]) :=
  .blocked rfl (List.cons_ne_nil _ _) h he

/-- Below a settled place there is no third case. -/
theorem Settled.opens_or_barred {d : Disk} {parent : Place} (hs : d.Settled parent)
    (name : String) : d.Opens parent name ∨ d.Barred (parent ++ [name]) := by
  rcases hs with hs | hs
  · by_cases hn : name.utf8ByteSize ≤ nameLimit
    · by_cases hp : (pathOf (parent ++ [name])).utf8ByteSize < pathLimit
      · exact Or.inl ⟨hs, hn, hp⟩
      · exact Or.inr (.longPath (Nat.le_of_not_lt hp))
    · exact Or.inr (.longName rfl hs (Nat.lt_of_not_le hn))
  · exact Or.inr (hs name)

theorem Opens.not_barred {d : Disk} (hw : d.WellFormed) {parent : Place} {name : String}
    (ho : d.Opens parent name) : ¬ d.Barred (parent ++ [name]) := by
  intro hb
  cases hb with
  | @blocked a b e hp hne ha he =>
      have hdir : d.get? a = some .directory := by
        rcases List.eq_nil_or_concat b with rfl | ⟨front, last, rfl⟩
        · exact absurd rfl hne
        · rw [List.concat_eq_append, ← List.append_assoc] at hp
          obtain ⟨rfl, -⟩ := List.append_inj' hp rfl
          exact hw.directory_prefix ho.directory
      rw [hdir, Option.some.injEq] at ha
      rw [← ha] at he
      cases he
  | @longName a b long hp ha hn =>
      have hmem : long ∈ parent ++ [name] := by simp [hp]
      have hshort : long.utf8ByteSize ≤ nameLimit := by
        rcases List.mem_append.mp hmem with hm | hm
        · exact hw.short ho.directory long hm
        · rw [List.mem_singleton.mp hm]
          exact ho.shortName
      omega
  | longPath hp =>
      have := ho.shortPath
      omega

/-- Where something stands under a path short enough, nothing bars the way. -/
theorem Barred.get?_eq_none {d : Disk} (hw : d.WellFormed) {place : Place} (hb : d.Barred place)
    (hshort : (pathOf place).utf8ByteSize < pathLimit) : d.get? place = none := by
  cases he : d.get? place with
  | none => rfl
  | some e =>
      cases hb with
      | blocked hp hne ha hblocks =>
          rw [hp] at he
          rw [hw.directory_above he hne, Option.some.injEq] at ha
          rw [← ha] at hblocks
          cases hblocks
      | @longName a b name hp ha hn =>
          have hname := hw.short he name (by simp [hp])
          omega
      | longPath h => omega

/-! ## The walk

Only the last step of a walk through directories is of interest, so the first
lemma takes the others off. It needs every name on the way to stand for itself
and what is left to be more than a request for a directory. -/

theorem walkWith_directories {d : Disk} {purpose : Purpose}
    {onLink : Place → List String → Except IoError Found} {at_ a rest : Place}
    (ha : ∀ b c, a = b ++ c → d.get? (at_ ++ b) = some .directory)
    (hn : ∀ n ∈ a, EntryName n) (hs : ∀ n ∈ a, n.utf8ByteSize ≤ nameLimit)
    (hrest : rest ≠ [""]) :
    d.walkWith purpose onLink at_ (a ++ rest) = d.walkWith purpose onLink (at_ ++ a) rest := by
  induction a generalizing at_ with
  | nil => rw [List.append_nil, List.nil_append]
  | cons name a ih =>
      have hat : d.get? at_ = some .directory := by simpa using ha [] (name :: a) rfl
      have hnext : d.get? (at_ ++ [name]) = some .directory := ha [name] a rfl
      have hname := hn name (by simp)
      have hshort := hs name (by simp)
      have hmore : a ++ rest ≠ [""] := by
        cases a with
        | nil => exact hrest
        | cons m a =>
            intro hc
            exact (hn m (by simp)).ne_empty (List.cons.inj hc).1
      have hstep : d.walkWith purpose onLink at_ (name :: (a ++ rest)) =
          d.walkWith purpose onLink (at_ ++ [name]) (a ++ rest) := by
        rw [walkWith.eq_def]
        simp only [hat, hnext]
        rw [if_neg (not_or.mpr ⟨hname.ne_here, hname.ne_empty⟩), if_neg hname.ne_above,
          if_neg (fun hc => hmore hc.2), if_neg (Nat.not_lt.mpr hshort)]
      rw [List.cons_append, hstep, ih (fun b c hbc => ?_)
        (fun n hm => hn n (List.mem_cons_of_mem _ hm))
        (fun n hm => hs n (List.mem_cons_of_mem _ hm)), List.append_assoc, List.singleton_append]
      rw [List.append_assoc, List.singleton_append]
      exact ha (name :: b) c (by rw [hbc, List.cons_append])

theorem walk_eq_walkWith (d : Disk) (purpose : Purpose) (links : Nat) :
    ∃ onLink, d.walk purpose links = d.walkWith purpose onLink := by
  cases links with
  | zero => exact ⟨_, rfl⟩
  | succ links => exact ⟨_, rfl⟩

/-- A lookup of a place's path walks through its names from the root. -/
theorem find_pathOf (d : Disk) (purpose : Purpose) {place : Place}
    (h : ∀ n ∈ place, EntryName n) (hlen : (pathOf place).utf8ByteSize < pathLimit) :
    ∃ onLink, d.find purpose ⟨pathOf place⟩ = d.walkWith purpose onLink [] place := by
  obtain ⟨onLink, hwalk⟩ := walk_eq_walkWith d purpose linkLimit
  refine ⟨onLink, ?_⟩
  have hne : pathOf place ≠ "" := by
    intro hc
    have := toList_pathOf place
    rw [hc] at this
    cases this
  have hcheck : checkPath ⟨pathOf place⟩ = .ok ⟨pathOf place⟩ := by
    unfold checkPath
    rw [if_neg hne, if_neg (no_nul_pathOf h), if_neg (Nat.not_le.mpr hlen)]
  simp only [find, hcheck, bind, Except.bind, isAbsolute_pathOf, if_true, steps_pathOf h]
  rw [hwalk]

theorem find_of_longPath (d : Disk) (purpose : Purpose) {place : Place}
    (h : ∀ n ∈ place, EntryName n) (hlen : pathLimit ≤ (pathOf place).utf8ByteSize) :
    d.find purpose ⟨pathOf place⟩ = .error .nameTooLong := by
  have hne : pathOf place ≠ "" := by
    intro hc
    have := toList_pathOf place
    rw [hc] at this
    cases this
  have hcheck : checkPath ⟨pathOf place⟩ = .error .nameTooLong := by
    unfold checkPath
    rw [if_neg hne, if_neg (no_nul_pathOf h), if_pos hlen]
  simp only [find, hcheck, bind, Except.bind]

theorem WellFormed.walkWith_root {d : Disk} (hw : d.WellFormed) {purpose : Purpose}
    {onLink : Place → List String → Except IoError Found} {a rest : Place}
    (ha : d.get? a = some .directory) (hrest : rest ≠ [""]) :
    d.walkWith purpose onLink [] (a ++ rest) = d.walkWith purpose onLink a rest := by
  have hway : ∀ b c, a = b ++ c → d.get? ([] ++ b) = some .directory := by
    intro b c hbc
    rw [hbc] at ha
    exact hw.directory_prefix ha
  have h : d.walkWith purpose onLink [] (a ++ rest) =
      d.walkWith purpose onLink ([] ++ a) rest :=
    walkWith_directories hway (hw.named ha) (hw.short ha) hrest
  exact h

theorem nil_ne_request : ([] : List String) ≠ [""] := by simp

/-- A lookup of an open name answers with what stands there. -/
theorem find_of_opens {d : Disk} (hw : d.WellFormed) {parent : Place} {name : String}
    (ho : d.Opens parent name) (hname : EntryName name)
    (hlink : ∀ t, d.get? (parent ++ [name]) ≠ some (.link t)) (purpose : Purpose) :
    d.find purpose ⟨pathOf (parent ++ [name])⟩ =
      match d.get? (parent ++ [name]) with
      | none => .ok (.vacant parent name)
      | some e => .ok (.entry (parent ++ [name]) e) := by
  have hnames : ∀ n ∈ parent ++ [name], EntryName n := by
    intro n hn
    rcases List.mem_append.mp hn with hn | hn
    · exact hw.named ho.directory n hn
    · rw [List.mem_singleton.mp hn]
      exact hname
  obtain ⟨onLink, hfind⟩ := find_pathOf d purpose hnames ho.shortPath
  have hrest : [name] ≠ [""] := by
    intro hc
    exact hname.ne_empty (List.cons.inj hc).1
  rw [hfind, hw.walkWith_root ho.directory hrest, walkWith.eq_def]
  simp only [ho.directory]
  rw [if_neg (not_or.mpr ⟨hname.ne_here, hname.ne_empty⟩), if_neg hname.ne_above,
    if_neg (fun hc => nil_ne_request hc.2), if_neg (Nat.not_lt.mpr ho.shortName)]
  cases he : d.get? (parent ++ [name]) with
  | none => rfl
  | some e =>
      cases e with
      | link target => exact absurd he (hlink target)
      | directory => simp only [walkWith, he]
      | file number content => simp only [walkWith, he]
      | device dev => simp only [walkWith, he]

/-- A lookup of a barred place fails, and never because something is missing. -/
theorem find_of_barred {d : Disk} (hw : d.WellFormed) {place : Place}
    (hnames : ∀ n ∈ place, EntryName n) (hb : d.Barred place) (purpose : Purpose) :
    ∃ err, d.find purpose ⟨pathOf place⟩ = .error err ∧ err.kind ≠ .notFound := by
  by_cases hlen : pathLimit ≤ (pathOf place).utf8ByteSize
  · exact ⟨_, find_of_longPath d purpose hnames hlen, by decide⟩
  obtain ⟨onLink, hfind⟩ :=
    find_pathOf d purpose hnames (Nat.lt_of_not_le hlen)
  rw [hfind]
  cases hb with
  | longPath h => exact absurd h hlen
  | @longName a b name hp ha hn =>
      subst hp
      have hname : EntryName name := hnames name (by simp)
      have hmore : name :: b ≠ [""] := fun hc => hname.ne_empty (List.cons.inj hc).1
      have hb' : b ≠ [""] := by
        intro hc
        exact (hnames "" (by simp [hc])).ne_empty rfl
      refine ⟨.nameTooLong, ?_, by decide⟩
      rw [hw.walkWith_root ha hmore, walkWith.eq_def]
      simp only [ha]
      rw [if_neg (not_or.mpr ⟨hname.ne_here, hname.ne_empty⟩), if_neg hname.ne_above,
        if_neg (fun hc => hb' hc.2), if_pos hn]
  | @blocked a b e hp hne ha he =>
      subst hp
      refine ⟨.notDirectory, ?_, by decide⟩
      rcases List.eq_nil_or_concat a with rfl | ⟨front, last, rfl⟩
      · rw [get?_root, Option.some.injEq] at ha
        rw [← ha] at he
        cases he
      · rw [List.concat_eq_append] at ha hnames hfind ⊢
        have hlast : EntryName last := hnames last (by simp)
        have hdir := hw.housed ha
        have hb' : b ≠ [""] := by
          intro hc
          exact (hnames "" (by simp [hc])).ne_empty rfl
        have hmore : last :: b ≠ [""] := fun hc => hlast.ne_empty (List.cons.inj hc).1
        have hshort : last.utf8ByteSize ≤ nameLimit := hw.short ha last (by simp)
        rw [List.append_assoc, List.singleton_append, hw.walkWith_root hdir hmore,
          walkWith.eq_def]
        simp only [hdir]
        rw [if_neg (not_or.mpr ⟨hlast.ne_here, hlast.ne_empty⟩), if_neg hlast.ne_above,
          if_neg (fun hc => hb' hc.2), if_neg (Nat.not_lt.mpr hshort)]
        -- Something that blocks lies behind this step, and there is one to go.
        obtain ⟨n, b, rfl⟩ := List.exists_cons_of_ne_nil hne
        cases e with
        | directory => cases he
        | link target => cases he
        | file number content => simp only [ha, walkWith]
        | device dev => simp only [ha, walkWith]

end Disk

end AssetUnpack
