import AssetUnpack.Disk.Lookup
import AssetUnpack.Proofs.Disk.Paths

/-!
# Disks that hang together, and disks that grow

A table may hold anything under any key; a disk is well formed when its keys
are places: every name is one that a directory can hold, and whatever stands at
a place stands in a directory. `LinkFreeAt` adds what an extraction is promised
about its destination, that it is a directory with no link below it.

`Extends` is the order in which every change of an extraction moves the disk.
Nothing that stands somewhere goes away or turns into something else; only the
bytes of files are free. `shape` is what is left of an entry without its bytes.
-/

namespace AssetUnpack

namespace DiskEntry

/-- What stays of an entry when the bytes of a file are left out of account. -/
def shape : DiskEntry → DiskEntry
  | .file number _ => .file number []
  | e => e

/-- Whether nothing can stand below an entry, however it is looked at. -/
def blocks : DiskEntry → Bool
  | .file _ _ | .device _ => true
  | .directory | .link _ => false

theorem shape_eq_directory {e : DiskEntry} : e.shape = .directory ↔ e = .directory := by
  cases e <;> simp [shape]

theorem shape_eq_link {e : DiskEntry} {target : String} :
    e.shape = .link target ↔ e = .link target := by
  cases e <;> simp [shape]

theorem shape_eq_device {e : DiskEntry} {dev : Device} :
    e.shape = .device dev ↔ e = .device dev := by
  cases e <;> simp [shape]

theorem shape_eq_file {e : DiskEntry} {number : Nat} {bytes : Bytes} :
    e.shape = (DiskEntry.file number bytes).shape ↔ ∃ content, e = .file number content := by
  cases e <;> simp [shape]

theorem blocks_of_shape {e e' : DiskEntry} (h : e'.shape = e.shape) : e'.blocks = e.blocks := by
  cases e <;> cases e' <;> simp_all [shape, blocks]

theorem blocks_of_ne {e : DiskEntry} (hd : e ≠ .directory) (hl : ∀ t, e ≠ .link t) :
    e.blocks = true := by
  cases e with
  | directory => exact absurd rfl hd
  | file number content => rfl
  | link target => exact absurd rfl (hl target)
  | device dev => rfl

end DiskEntry

namespace Disk

/-- The keys of the table are places: proper names, in directories that are
there. -/
structure WellFormed (d : Disk) : Prop where
  named : ∀ {place e}, d.get? place = some e → ∀ n ∈ place, EntryName n
  short : ∀ {place e}, d.get? place = some e → ∀ n ∈ place, n.utf8ByteSize ≤ nameLimit
  housed : ∀ {place name e}, d.get? (place ++ [name]) = some e →
    d.get? place = some .directory

theorem get?_root (d : Disk) : d.get? [] = some .directory := by
  simp [get?]

/-- Whatever stands somewhere has directories all the way above it. -/
theorem WellFormed.directory_above {d : Disk} (hw : d.WellFormed) {a b : Place}
    {e : DiskEntry} (h : d.get? (a ++ b) = some e) (hb : b ≠ []) :
    d.get? a = some .directory := by
  induction b generalizing a with
  | nil => exact absurd rfl hb
  | cons name b ih =>
      by_cases hbnil : b = []
      · subst hbnil
        exact hw.housed h
      · rw [List.append_cons] at h
        exact hw.housed (ih h hbnil)

theorem WellFormed.directory_prefix {d : Disk} (hw : d.WellFormed) {a b : Place}
    (h : d.get? (a ++ b) = some .directory) : d.get? a = some .directory := by
  by_cases hb : b = []
  · rw [hb, List.append_nil] at h
    exact h
  · exact hw.directory_above h hb

theorem WellFormed.ne_none_above {d : Disk} (hw : d.WellFormed) {a b : Place} {e : DiskEntry}
    (h : d.get? (a ++ b) = some e) : d.get? a ≠ none := by
  intro hnone
  by_cases hb : b = []
  · rw [hb, List.append_nil, hnone] at h
    cases h
  · rw [hw.directory_above h hb] at hnone
    cases hnone

/-- A directory without a link anywhere below it. -/
structure LinkFreeAt (d : Disk) (base : Place) : Prop where
  wellFormed : d.WellFormed
  directory : d.get? base = some .directory
  linkFree : ∀ below target, d.get? (base ++ below) ≠ some (.link target)

theorem linkFreeAt_empty (workingDirectory : Place) : (empty workingDirectory).LinkFreeAt [] := by
  have hget : ∀ {q e}, (empty workingDirectory).get? q = some e → q = [] ∧ e = .directory := by
    intro q e hq
    unfold get? at hq
    split at hq
    · next hnil => exact ⟨hnil, (Option.some.inj hq).symm⟩
    · cases hq
  refine ⟨⟨fun hq n hn => ?_, fun hq n hn => ?_, fun hq => ?_⟩, get?_root _, fun below t hq => ?_⟩
  · rw [(hget hq).1] at hn
    cases hn
  · rw [(hget hq).1] at hn
    cases hn
  · exact absurd (hget hq).1 (by simp)
  · cases (hget hq).2

theorem LinkFreeAt.of_directory {d : Disk} {base below : Place} (h : d.LinkFreeAt base)
    (hd : d.get? (base ++ below) = some .directory) : d.LinkFreeAt (base ++ below) :=
  ⟨h.wellFormed, hd, fun more t => by
    rw [List.append_assoc]
    exact h.linkFree (below ++ more) t⟩

theorem LinkFreeAt.under {d : Disk} {base : Place} (h : d.LinkFreeAt base) (q : AssetPath) :
    HostPath.under ⟨pathOf base⟩ q = ⟨pathOf (q.below base)⟩ :=
  under_pathOf (h.wellFormed.named h.directory) q

/-! ## Growing -/

/-- Everything that stands on `d` stands on `d'`, files with what bytes ever. -/
def Extends (d d' : Disk) : Prop :=
  ∀ place e, d.get? place = some e → ∃ e', d'.get? place = some e' ∧ e'.shape = e.shape

theorem Extends.refl (d : Disk) : d.Extends d := fun _ _ h => ⟨_, h, rfl⟩

theorem Extends.trans {a b c : Disk} (hab : a.Extends b) (hbc : b.Extends c) : a.Extends c := by
  intro place e h
  obtain ⟨e', h', hs'⟩ := hab place e h
  obtain ⟨e'', h'', hs''⟩ := hbc place e' h'
  exact ⟨e'', h'', hs''.trans hs'⟩

theorem Extends.directory {d d' : Disk} (h : d.Extends d') {place : Place}
    (hd : d.get? place = some .directory) : d'.get? place = some .directory := by
  obtain ⟨e', he', hs⟩ := h place _ hd
  rw [he', DiskEntry.shape_eq_directory.mp hs]

theorem Extends.ne_none {d d' : Disk} (h : d.Extends d') {place : Place}
    (hd : d.get? place ≠ none) : d'.get? place ≠ none := by
  obtain ⟨e, he⟩ := Option.ne_none_iff_exists'.mp hd
  obtain ⟨e', he', -⟩ := h place e he
  rw [he']
  exact Option.some_ne_none _

theorem extends_put {d : Disk} {place : Place} {entry : DiskEntry} (hp : place ≠ [])
    (h : ∀ e, d.get? place = some e → entry.shape = e.shape) : d.Extends (d.put place entry) := by
  intro q e he
  rw [get?_put _ _ _ _ hp]
  by_cases hq : q = place
  · subst hq
    rw [if_pos rfl]
    exact ⟨entry, rfl, h e he⟩
  · rw [if_neg hq]
    exact ⟨e, he, rfl⟩

theorem get?_putFile (d : Disk) {place : Place} (q : Place) (content : Bytes) (h : place ≠ []) :
    (d.putFile place content).get? q =
      if q = place then some (.file d.filesMade content) else d.get? q :=
  get?_put d place q _ h

/-- A put of something that is no link keeps a link-free directory so, as long
as the new entry has a proper name in a directory and no directory goes. -/
theorem LinkFreeAt.put {d : Disk} {base parent : Place} {name : String}
    (h : d.LinkFreeAt base) (entry : DiskEntry) (hparent : d.get? parent = some .directory)
    (hname : EntryName name) (hshort : name.utf8ByteSize ≤ nameLimit)
    (hkeep : ∀ e, d.get? (parent ++ [name]) = some e → entry.shape = e.shape)
    (hlink : ∀ t, entry ≠ .link t) : (d.put (parent ++ [name]) entry).LinkFreeAt base := by
  have hne : parent ++ [name] ≠ [] := List.append_ne_nil_of_right_ne_nil _ (List.cons_ne_nil _ _)
  have hext := extends_put hne hkeep
  have hnames : ∀ {q e}, (d.put (parent ++ [name]) entry).get? q = some e →
      ∀ n ∈ q, EntryName n ∧ n.utf8ByteSize ≤ nameLimit := by
    intro q e hq n hn
    rw [get?_put _ _ _ _ hne] at hq
    split at hq
    · rename_i heq
      subst heq
      rcases List.mem_append.mp hn with hn | hn
      · exact ⟨h.wellFormed.named hparent n hn, h.wellFormed.short hparent n hn⟩
      · rw [List.mem_singleton.mp hn]
        exact ⟨hname, hshort⟩
    · exact ⟨h.wellFormed.named hq n hn, h.wellFormed.short hq n hn⟩
  refine ⟨⟨fun hq n hn => (hnames hq n hn).1, fun hq n hn => (hnames hq n hn).2, ?_⟩,
    hext.directory h.directory, ?_⟩
  · intro q m e hq
    rw [get?_put _ _ _ _ hne] at hq
    split at hq
    · rename_i heq
      rw [(List.append_inj' heq rfl).1]
      exact hext.directory hparent
    · exact hext.directory (h.wellFormed.housed hq)
  · intro below target hq
    rw [get?_put _ _ _ _ hne] at hq
    split at hq
    · exact hlink target (Option.some.inj hq)
    · exact h.linkFree below target hq

end Disk

end AssetUnpack
