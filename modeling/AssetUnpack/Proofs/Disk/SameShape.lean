import AssetUnpack.Proofs.Disk.Change

/-!
# Disks that differ in bytes alone

Two disks of one shape have the same entries everywhere; only the bytes of
regular files may differ. Lookups cannot tell such disks apart, so what is made
on both keeps them of one shape, and bytes kept in a file that is there change
the shape of neither.
-/

namespace AssetUnpack

/-- Two disks with the same entries, files with what bytes ever. -/
structure Disk.SameShape (d d' : Disk) : Prop where
  filesMade : d.filesMade = d'.filesMade
  shapes : ∀ q, (d.get? q).map DiskEntry.shape = (d'.get? q).map DiskEntry.shape

namespace Disk.SameShape

variable {a b c d d' : Disk}

theorem refl (d : Disk) : d.SameShape d := ⟨rfl, fun _ => rfl⟩

theorem symm (h : a.SameShape b) : b.SameShape a := ⟨h.filesMade.symm, fun q => (h.shapes q).symm⟩

theorem trans (hab : a.SameShape b) (hbc : b.SameShape c) : a.SameShape c :=
  ⟨hab.filesMade.trans hbc.filesMade, fun q => (hab.shapes q).trans (hbc.shapes q)⟩

theorem toExtends (h : d.SameShape d') : d.Extends d' := by
  intro q e he
  have hq := h.shapes q
  rw [he, Option.map_some] at hq
  obtain ⟨e', he', hs⟩ := Option.map_eq_some_iff.mp hq.symm
  exact ⟨e', he', hs⟩

theorem get?_eq_none (h : d.SameShape d') {q : Place} (hn : d.get? q = none) :
    d'.get? q = none := by
  have hq := h.shapes q
  rw [hn, Option.map_none] at hq
  exact Option.map_eq_none_iff.mp hq.symm

theorem put (h : d.SameShape d') {place : Place} (hne : place ≠ []) {e e' : DiskEntry}
    (he : e.shape = e'.shape) : (d.put place e).SameShape (d'.put place e') := by
  refine ⟨h.filesMade, fun q => ?_⟩
  rw [get?_put _ _ _ _ hne, get?_put _ _ _ _ hne]
  split
  · rw [Option.map_some, Option.map_some, he]
  · exact h.shapes q

theorem house (h : d.SameShape d') {place : Place} (hne : place ≠ []) :
    (d.house place).SameShape (d'.house place) := by
  cases hn : d.get? place with
  | none =>
      rw [Disk.house, Disk.house, hn, h.get?_eq_none hn]
      exact h.put hne rfl
  | some e =>
      obtain ⟨e', he', -⟩ := h.toExtends place e hn
      rw [house_of_some hn, house_of_some he']
      exact h

theorem keep_new (h : d.SameShape d') {place : Place} (hne : place ≠ [])
    (hn : d.get? place = none) (bytes bytes' : Bytes) :
    (d.keep place bytes).SameShape (d'.keep place bytes') := by
  rw [Disk.keep, Disk.keep, hn, h.get?_eq_none hn]
  have hshape : (DiskEntry.file d.filesMade bytes).shape =
      (DiskEntry.file d'.filesMade bytes').shape := by
    rw [h.filesMade, DiskEntry.shape, DiskEntry.shape]
  have hput := h.put hne hshape
  exact ⟨by simp only [putFile, h.filesMade], hput.shapes⟩

theorem keep_old {place : Place} (hne : place ≠ []) (hsome : d.get? place ≠ none)
    (bytes : Bytes) : d.SameShape (d.keep place bytes) := by
  obtain ⟨e, he⟩ := Option.ne_none_iff_exists'.mp hsome
  cases e with
  | file number content =>
      rw [Disk.keep, he]
      refine ⟨rfl, fun q => ?_⟩
      rw [get?_put _ _ _ _ hne]
      split
      · next hq => rw [hq, he, Option.map_some, Option.map_some, DiskEntry.shape, DiskEntry.shape]
      · rfl
  | directory | link | device =>
      rw [keep_of_other he (by simp)]
      exact refl d

/-- Disks of one shape differ in nothing but the bytes of files. -/
theorem get?_eq (h : d.SameShape d') {place : Place}
    (hbytes : ∀ number content content', d.get? place = some (.file number content) →
      d'.get? place = some (.file number content') → content = content') :
    d.get? place = d'.get? place := by
  cases he : d.get? place with
  | none => exact (h.get?_eq_none he).symm
  | some e =>
      obtain ⟨e', he', hs⟩ := h.toExtends place e he
      rw [he']
      cases e with
      | directory => rw [DiskEntry.shape_eq_directory.mp hs]
      | link target => rw [DiskEntry.shape_eq_link.mp hs]
      | device dev => rw [DiskEntry.shape_eq_device.mp hs]
      | file number content =>
          obtain ⟨content', rfl⟩ := DiskEntry.shape_eq_file.mp hs
          rw [hbytes number content content' he he']

end Disk.SameShape

end AssetUnpack
