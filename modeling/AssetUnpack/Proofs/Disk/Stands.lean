import AssetUnpack.Proofs.Disk.Change

/-!
# What stands at a place

Files are numbered in the order in which they are made, so two runs that make
different files give the same file different numbers. `stands` is what is left of
an entry without its number: nothing, a directory, a file with certain bytes, or
what it was otherwise. What is made at a place comes out the same on two disks
that are the same there in this sense, whatever they are like elsewhere.
-/

namespace AssetUnpack

/-- An entry without the number of a file. -/
def DiskEntry.unnumbered : DiskEntry → DiskEntry
  | .file _ content => .file 0 content
  | e => e

namespace Disk

/-- What stands at a place, whatever number it has. -/
def stands (d : Disk) (place : Place) : Option DiskEntry :=
  (d.get? place).map DiskEntry.unnumbered

variable {d d' : Disk} {place : Place}

theorem stands_congr (h : d.get? place = d'.get? place) : d.stands place = d'.stands place :=
  congrArg (Option.map DiskEntry.unnumbered) h

theorem stands_eq_none : d.stands place = none ↔ d.get? place = none :=
  Option.map_eq_none_iff

theorem stands_eq_directory : d.stands place = some .directory ↔ d.get? place = some .directory := by
  unfold stands
  cases d.get? place with
  | none => simp
  | some e => cases e <;> simp [DiskEntry.unnumbered]

theorem stands_house (hne : place ≠ []) :
    (d.house place).stands place = some ((d.stands place).getD .directory) := by
  cases he : d.get? place with
  | none =>
      rw [stands, get?_house_of_none hne he, stands, he]
      rfl
  | some e =>
      rw [house_of_some he, stands, he]
      rfl

theorem stands_keep (hne : place ≠ []) (bytes : Bytes) :
    (d.keep place bytes).stands place =
      match d.stands place with
      | none | some (.file _ _) => some (.file 0 bytes)
      | some e => some e := by
  cases he : d.get? place with
  | none =>
      rw [stands, get?_keep_of_none hne he, stands, he]
      rfl
  | some e =>
      cases e with
      | file number content =>
          rw [stands, get?_keep_of_file hne he, stands, he]
          rfl
      | directory | link | device =>
          rw [keep_of_other he (by simp), stands, he]
          rfl

/-- A settled place in which two disks are the same settles the names below it in
the same way on both. -/
theorem Settled.alike (hs : d.Settled place) (hs' : d'.Settled place)
    (hsame : d.stands place = d'.stands place) (name : String) :
    (d.Opens place name ∧ d'.Opens place name) ∨
      (d.Barred (place ++ [name]) ∧ d'.Barred (place ++ [name])) := by
  have hdirectory : d.get? place = some .directory ↔ d'.get? place = some .directory := by
    rw [← stands_eq_directory, ← stands_eq_directory, hsame]
  rcases hs.opens_or_barred name with ho | hb
  · exact Or.inl ⟨ho, hdirectory.mp ho.directory, ho.shortName, ho.shortPath⟩
  · rcases hs'.opens_or_barred name with ho' | hb'
    · exact Or.inl ⟨⟨hdirectory.mpr ho'.directory, ho'.shortName, ho'.shortPath⟩, ho'⟩
    · exact Or.inr ⟨hb, hb'⟩

end Disk

end AssetUnpack
