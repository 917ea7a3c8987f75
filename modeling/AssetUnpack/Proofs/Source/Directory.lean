import AssetUnpack.Proofs.Disk.Change
import AssetUnpack.Source.Directory

/-!
# What a directory lists

Below a directory without links a listing leaves nothing out: every entry that
stands in a directory is among the names that its path lists, and a file lists
no names. Only names are compared, so nothing is said of their order.
-/

namespace AssetUnpack

namespace Disk

/-- The path of a directory leads to it, the root included. -/
theorem WellFormed.resolve_directory {d : Disk} (hw : d.WellFormed) {place : Place}
    (h : d.get? place = some .directory) (hshort : (pathOf place).utf8ByteSize < pathLimit) :
    d.resolve ⟨pathOf place⟩ = .ok (place, .directory) := by
  obtain ⟨onLink, hfind⟩ := find_pathOf d .target (hw.named h) hshort
  have hwalk : d.walkWith .target onLink [] (place ++ []) = d.walkWith .target onLink place [] :=
    hw.walkWith_root h nil_ne_request
  rw [List.append_nil] at hwalk
  rw [resolve, hfind, hwalk]
  simp only [walkWith, h]

theorem mem_namesIn {d : Disk} {place : Place} {name : String}
    (h : d.get? (place ++ [name]) ≠ none) : name ∈ d.namesIn place := by
  rw [get?, if_neg (place_ne_nil place name)] at h
  rw [namesIn, List.mem_filterMap]
  refine ⟨place ++ [name], Table.mem_keys.mpr h, ?_⟩
  simp

end Disk

namespace Directory

open Disk (pathOf)

variable {d : Disk} {base : Place}

theorem list_of_directory (hfree : d.LinkFreeAt base) {names : List Name}
    (h : d.get? (AssetPath.below ⟨names⟩ base) = some .directory)
    (hshort : (pathOf (AssetPath.below ⟨names⟩ base)).utf8ByteSize < Disk.pathLimit) :
    ∃ listed events, list d ⟨pathOf (AssetPath.below ⟨names⟩ base)⟩ = (.ok listed, events) ∧
      ∀ name, d.get? (AssetPath.below ⟨names⟩ base ++ [name]) ≠ none → name ∈ listed := by
  have hnolink : ∀ name, isDirectoryLink d (AssetPath.below ⟨names⟩ base ++ [name])
      (entryPath ⟨pathOf (AssetPath.below ⟨names⟩ base)⟩ name) = false := by
    intro name
    unfold isDirectoryLink
    split
    · next target hlink =>
        rw [AssetPath.below, List.append_assoc] at hlink
        exact absurd hlink (hfree.linkFree _ target)
    · rfl
  unfold list
  rw [hfree.wellFormed.resolve_directory h hshort]
  simp only [List.partition_eq_filter_filter]
  refine ⟨_, _, rfl, fun name hthere => ?_⟩
  rw [List.mem_mergeSort, List.mem_filter]
  exact ⟨Disk.mem_namesIn hthere, by simp [hnolink]⟩

theorem list_of_file {parent : Place} {name : String} {number : Nat} {bytes : Bytes}
    (hp : d.Plain parent name) (ho : d.Opens parent name)
    (h : d.get? (parent ++ [name]) = some (.file number bytes)) :
    list d ⟨pathOf (parent ++ [name])⟩ = (.ok [], []) := by
  rw [list, hp.resolve ho, h]

end Directory

end AssetUnpack
