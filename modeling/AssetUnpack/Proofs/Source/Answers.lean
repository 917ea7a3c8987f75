import AssetUnpack.Proofs.Bytes
import AssetUnpack.Proofs.Disk.Descent
import AssetUnpack.Proofs.Source.Directory
import AssetUnpack.Proofs.Stream.Copy

/-!
# What a directory answers

A directory is asked by path, and it may itself have been given by a relative path
or through links. Below it, where no link is, every question about a path is one
about the place: a directory lists the names that stand in it, in order and each of
them once, a file lists nothing and can be opened.

A path that is not there lists nothing either, with one exception. If something on
the way is no directory the disk does not say that the path is missing, and then
there is no listing at all.
-/

namespace AssetUnpack

theorem DiskEntry.isDirectory_of_ne {e : DiskEntry} (h : e ≠ .directory) :
    e.isDirectory = false := by
  cases e with
  | directory => exact absurd rfl h
  | file | link | device => rfl

namespace Disk

variable {d : Disk} {place : Place}

theorem mem_namesIn_iff {name : String} :
    name ∈ d.namesIn place ↔ d.get? (place ++ [name]) ≠ none := by
  refine ⟨fun h => ?_, mem_namesIn⟩
  rw [namesIn, List.mem_filterMap] at h
  obtain ⟨p, hp, hname⟩ := h
  rcases List.eq_nil_or_concat p with rfl | ⟨parent, last, rfl⟩
  · cases hname
  · simp only [List.concat_eq_append, List.getLast?_concat, List.dropLast_concat,
      Option.ite_none_right_eq_some, Option.some.injEq] at hp hname
    obtain ⟨rfl, rfl⟩ := hname
    rw [get?, if_neg (place_ne_nil parent last)]
    exact Table.mem_keys.mp hp

/-- A table with one entry for a place has one name for an entry. -/
theorem namesIn_nodup (h : d.table.keys.Nodup) (place : Place) : (d.namesIn place).Nodup := by
  refine List.Pairwise.filterMap _ (fun p p' hne name hp name' hp' => ?_) h
  rintro rfl
  refine hne ?_
  rcases List.eq_nil_or_concat p with rfl | ⟨parent, last, rfl⟩
  · cases hp
  rcases List.eq_nil_or_concat p' with rfl | ⟨parent', last', rfl⟩
  · cases hp'
  simp only [List.concat_eq_append, List.getLast?_concat, List.dropLast_concat,
    Option.ite_none_right_eq_some, Option.some.injEq] at hp hp' ⊢
  rw [hp.1, hp'.1, hp.2, hp'.2]

theorem get?_eq_none_of_inTheWay {root : Place} (hfree : d.LinkFreeAt root) {q : AssetPath}
    (h : d.InTheWay root q) : d.get? (q.below root) = none := by
  obtain ⟨above, rest, e, hsplit, hrest, hthere, hne⟩ := h
  cases hbelow : d.get? (q.below root) with
  | none => rfl
  | some e' =>
      rw [AssetPath.below, hsplit, List.map_append, ← List.append_assoc] at hbelow
      have hdir := hfree.wellFormed.directory_above hbelow (by simpa using hrest)
      exact absurd (Option.some.inj (hthere.symm.trans hdir)) hne

/-- The names in a directory, in order. -/
def sortedNames (d : Disk) (place : Place) : List String :=
  (d.namesIn place).mergeSort fun a b => decide (a ≤ b)

theorem mem_sortedNames {name : String} :
    name ∈ d.sortedNames place ↔ d.get? (place ++ [name]) ≠ none := by
  rw [sortedNames, List.mem_mergeSort, mem_namesIn_iff]

theorem sortedNames_increasing (h : d.table.keys.Nodup) (place : Place) :
    (d.sortedNames place).Pairwise (· < ·) := by
  have hsorted : (d.sortedNames place).Pairwise fun a b => decide (a ≤ b) = true := by
    refine List.pairwise_mergeSort (fun a b c hab hbc => ?_) (fun a b => ?_) _
    · exact decide_eq_true (String.le_trans (of_decide_eq_true hab) (of_decide_eq_true hbc))
    · rcases String.le_total a b with hab | hba
      · simp [hab]
      · simp [hba]
  have hnodup : (d.sortedNames place).Nodup :=
    (List.mergeSort_perm _ _).nodup_iff.mpr (namesIn_nodup h place)
  refine (hsorted.and hnodup).imp ?_
  rintro a b ⟨hle, hne⟩
  exact String.not_le.mp fun hba => hne (String.le_antisymm (of_decide_eq_true hle) hba)

end Disk

namespace Directory

variable {d : Disk} {base : HostPath} {root : Place} {q : AssetPath}

/-- A directory below which no link is lists the names in it. -/
theorem list_under (hbase : d.resolve base = .ok (root, .directory)) (hfree : d.LinkFreeAt root)
    (hshort : (base.under q).text.utf8ByteSize < Disk.pathLimit)
    (hthere : d.get? (q.below root) = some .directory) :
    list d (base.under q) = (.ok (d.sortedNames (q.below root)), []) := by
  have hnolink : ∀ name, isDirectoryLink d (q.below root ++ [name])
      (entryPath (base.under q) name) = false := by
    intro name
    unfold isDirectoryLink
    split
    · next target hlink =>
        rw [AssetPath.below, List.append_assoc] at hlink
        exact absurd hlink (hfree.linkFree _ target)
    · rfl
  unfold list
  rw [Disk.resolve_under hbase hfree hshort hthere]
  have hall : (d.namesIn (q.below root)).filter (not ∘ fun _ => false) = d.namesIn (q.below root) :=
    List.filter_eq_self.mpr fun _ _ => rfl
  simp only [List.partition_eq_filter_filter, hnolink, hall, Disk.sortedNames]
  simp

theorem list_under_leaf (hbase : d.resolve base = .ok (root, .directory))
    (hfree : d.LinkFreeAt root) (hshort : (base.under q).text.utf8ByteSize < Disk.pathLimit)
    {e : DiskEntry} (hthere : d.get? (q.below root) = some e) (hne : e ≠ .directory) :
    list d (base.under q) = (.ok [], []) := by
  unfold list
  rw [Disk.resolve_under hbase hfree hshort hthere]
  cases e with
  | directory => exact absurd rfl hne
  | file | link | device => rfl

theorem list_under_missing (hbase : d.resolve base = .ok (root, .directory))
    (hfree : d.LinkFreeAt root) (hnames : ∀ n ∈ q.names, n.text.utf8ByteSize ≤ Disk.nameLimit)
    (hshort : (base.under q).text.utf8ByteSize < Disk.pathLimit)
    (hnone : d.get? (q.below root) = none) (hway : ¬ d.InTheWay root q) :
    list d (base.under q) = (.ok [], []) := by
  rcases Disk.resolve_under_missing hbase hfree hnames hshort hnone with ⟨h, -⟩ | ⟨-, hled⟩
  · exact absurd h hway
  · rw [list, hled]
    rfl

/-- The disk says of a path below a file that something is no directory, and not that
nothing is there. -/
theorem list_under_blocked (hbase : d.resolve base = .ok (root, .directory))
    (hfree : d.LinkFreeAt root) (hnames : ∀ n ∈ q.names, n.text.utf8ByteSize ≤ Disk.nameLimit)
    (hshort : (base.under q).text.utf8ByteSize < Disk.pathLimit) (hway : d.InTheWay root q) :
    d.get? (q.below root) = none ∧ list d (base.under q) = (.error .notDirectory, []) := by
  have hnone := Disk.get?_eq_none_of_inTheWay hfree hway
  refine ⟨hnone, ?_⟩
  rcases Disk.resolve_under_missing hbase hfree hnames hshort hnone with ⟨-, hled⟩ | ⟨h, -⟩
  · rw [list, hled]
    rfl
  · exact absurd hway h

/-- What lists any names is a directory. -/
theorem resolve_of_list {path : HostPath} {name : String} {names : List String}
    {events : List Event} (h : list d path = (.ok (name :: names), events)) :
    ∃ place, d.resolve path = .ok (place, .directory) := by
  unfold list at h
  split at h
  · split at h <;> cases h
  · next place hres => exact ⟨place, hres⟩
  · cases h

/-- The names that are listed are those of entries that are no links to directories. -/
theorem mem_list {path : HostPath} {place : Place}
    (hres : d.resolve path = .ok (place, .directory)) {listed : List String} {events : List Event}
    (h : list d path = (.ok listed, events)) {name : String} :
    name ∈ listed ↔ d.get? (place ++ [name]) ≠ none ∧
      isDirectoryLink d (place ++ [name]) (entryPath path name) = false := by
  unfold list at h
  rw [hres] at h
  simp only [List.partition_eq_filter_filter] at h
  obtain rfl := Except.ok.inj (Prod.mk.inj h).1
  rw [List.mem_mergeSort, List.mem_filter, Disk.mem_namesIn_iff, Function.comp_apply,
    Bool.not_eq_true']

/-- What is listed stands there, however long the path is. -/
theorem of_mem_list (hbase : d.resolve base = .ok (root, .directory)) (hfree : d.LinkFreeAt root)
    {names : List String} {events : List Event}
    (hlist : list d (base.under q) = (.ok names, events)) {name : String} (hname : name ∈ names) :
    d.get? (q.below root ++ [name]) ≠ none := by
  obtain ⟨first, rest, rfl⟩ := List.exists_cons_of_ne_nil (List.ne_nil_of_mem hname)
  obtain ⟨place, hfound⟩ := resolve_of_list hlist
  obtain ⟨rfl, -⟩ := Disk.get?_of_resolve_under hbase hfree hfound
  exact ((mem_list hfound hlist).mp hname).1

end Directory

namespace Source

/-- What a source answers at a path that shows what stands below a place. -/
structure Shows (s : Source) (d : Disk) (root : Place) (q : AssetPath) : Prop where
  /-- A directory lists the names of its entries, and their bytes increase. -/
  directory : d.get? (q.below root) = some .directory →
    ∃ names, s.list d q = (.ok names, []) ∧
      names.Pairwise (fun a b => Bytes.ofString a < Bytes.ofString b) ∧
      ∀ name, name ∈ names ↔ d.get? (q.below root ++ [name]) ≠ none
  /-- What is no directory lists nothing. -/
  leaf : ∀ e, d.get? (q.below root) = some e → e ≠ .directory → s.list d q = (.ok [], [])
  /-- What is not there lists nothing. -/
  missing : d.get? (q.below root) = none → ¬ d.InTheWay root q → s.list d q = (.ok [], [])
  /-- What is below something that is no directory cannot be listed. -/
  blocked : d.InTheWay root q → d.get? (q.below root) = none ∧
    s.list d q = (.error .notDirectory, [])
  /-- What is there and no directory can be opened, and nothing else can. -/
  opens : ∀ busy, (∃ content, s.openAsset d busy q = .ok content) ↔
    ∃ e, d.get? (q.below root) = some e ∧ e ≠ .directory
  /-- A file is read as it is. -/
  reads : ∀ busy number bytes, d.get? (q.below root) = some (.file number bytes) →
    s.readAll d busy q = .ok bytes

section Directory

variable {d : Disk} {base : HostPath} {root : Place} {q : AssetPath}

theorem ofDirectory_opens (hbase : d.resolve base = .ok (root, .directory))
    (hfree : d.LinkFreeAt root) (hshort : (base.under q).text.utf8ByteSize < Disk.pathLimit)
    {e : DiskEntry} (hthere : d.get? (q.below root) = some e) (hne : e ≠ .directory)
    (busy : Bool) :
    (ofDirectory base).openAsset d busy q = .ok fun d => .ofBytes (d.contentAt (q.below root)) := by
  have hno := DiskEntry.isDirectory_of_ne hne
  simp only [ofDirectory, Disk.resolve_under hbase hfree hshort hthere, hno]
  rfl

theorem of_ofDirectory_opens (hbase : d.resolve base = .ok (root, .directory))
    (hfree : d.LinkFreeAt root) {busy : Bool} {content : Content}
    (hopen : (ofDirectory base).openAsset d busy q = .ok content) :
    ∃ e, d.get? (q.below root) = some e ∧ e ≠ .directory := by
  unfold ofDirectory at hopen
  dsimp only at hopen
  cases hfound : d.resolve (base.under q) with
  | error e =>
      rw [hfound] at hopen
      cases hopen
  | ok found =>
      obtain ⟨place, e⟩ := found
      rw [hfound] at hopen
      refine ⟨e, (Disk.get?_of_resolve_under hbase hfree hfound).2, ?_⟩
      rintro rfl
      cases hopen

/-- The source of a directory without links, asked for a path within the limits of
the disk. The only listing that fails is that of a path below something that is no
directory. -/
theorem ofDirectory_shows (hbase : d.resolve base = .ok (root, .directory))
    (hfree : d.LinkFreeAt root) (hkeys : d.table.keys.Nodup)
    (hnames : ∀ n ∈ q.names, n.text.utf8ByteSize ≤ Disk.nameLimit)
    (hshort : (base.under q).text.utf8ByteSize < Disk.pathLimit) :
    openDirectory d base = .ok (ofDirectory base) ∧ (ofDirectory base).Shows d root q := by
  have hlist : ∀ q, (ofDirectory base).list d q = Directory.list d (base.under q) := fun _ => rfl
  refine ⟨by rw [openDirectory, hbase], ?_, ?_, ?_, ?_, ?_, ?_⟩
  · intro hthere
    rw [hlist, Directory.list_under hbase hfree hshort hthere]
    refine ⟨_, rfl, ?_, fun name => Disk.mem_sortedNames⟩
    exact (Disk.sortedNames_increasing hkeys _).imp fun hlt => Bytes.ofString_lt hlt
  · intro e hthere hne
    rw [hlist, Directory.list_under_leaf hbase hfree hshort hthere hne]
  · intro hnone hway
    rw [hlist, Directory.list_under_missing hbase hfree hnames hshort hnone hway]
  · intro hway
    rw [hlist]
    exact Directory.list_under_blocked hbase hfree hnames hshort hway
  · intro busy
    constructor
    · rintro ⟨content, hopen⟩
      exact of_ofDirectory_opens hbase hfree hopen
    · rintro ⟨e, hthere, hne⟩
      exact ⟨_, ofDirectory_opens hbase hfree hshort hthere hne busy⟩
  · intro busy number bytes hfile
    rw [readAll, ofDirectory_opens hbase hfree hshort hfile (by simp) busy]
    simp only [Disk.contentAt, hfile, Reader.drain_ofBytes]

end Directory

theorem ofDirectory_shows_small :
    Disk.small.LinkFreeAt ["in"] ∧ openDirectory Disk.small ⟨"/in"⟩ = .ok (ofDirectory ⟨"/in"⟩) ∧
      (ofDirectory ⟨"/in"⟩).readAll Disk.small true ⟨[Disk.fileNamed]⟩ = .ok [104, 105] := by
  have hfree := Disk.linkFreeAt_small_in
  have hresolve : Disk.small.resolve ⟨"/in"⟩ = .ok (["in"], .directory) :=
    Disk.linkFreeAt_small.wellFormed.resolve_directory hfree.directory (by decide)
  obtain ⟨hopen, hshows⟩ := ofDirectory_shows (q := ⟨[Disk.fileNamed]⟩) hresolve hfree
    (by decide) (by decide) (by decide)
  exact ⟨hfree, hopen, hshows.reads true 1 [104, 105] rfl⟩

/-- A path below a file is not there, and cannot be listed. -/
theorem ofDirectory_blocked_small :
    Disk.small.LinkFreeAt [] ∧ openDirectory Disk.small ⟨"/in"⟩ = .ok (ofDirectory ⟨"/in"⟩) ∧
      Disk.small.get? (AssetPath.below ⟨[Disk.fileNamed, Disk.fileNamed]⟩ ["in"]) = none ∧
      (ofDirectory ⟨"/in"⟩).list Disk.small ⟨[Disk.fileNamed, Disk.fileNamed]⟩ =
        (.error .notDirectory, []) := by
  have hfree := Disk.linkFreeAt_small_in
  have hresolve : Disk.small.resolve ⟨"/in"⟩ = .ok (["in"], .directory) :=
    Disk.linkFreeAt_small.wellFormed.resolve_directory hfree.directory (by decide)
  have hway : Disk.small.InTheWay ["in"] ⟨[Disk.fileNamed, Disk.fileNamed]⟩ :=
    ⟨[Disk.fileNamed], [Disk.fileNamed], .file 1 [104, 105], rfl, by simp, rfl, by simp⟩
  obtain ⟨hnone, hlist⟩ := Directory.list_under_blocked hresolve hfree (by decide) (by decide) hway
  exact ⟨Disk.linkFreeAt_small, by rw [openDirectory, hresolve], hnone, hlist⟩

end Source

end AssetUnpack
