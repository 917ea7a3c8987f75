import AssetUnpack.Disk.Change
import AssetUnpack.ExtractError

/-!
# Destinations

An extraction writes below a destination: a directory that is there before it starts and may be
written to, known by its place rather than by the path it was given as.
-/

namespace AssetUnpack

/-- A resolved destination. -/
structure Destination where
  place : Place

namespace Destination

/-- The path of a destination from the root of the disk. -/
def path (dest : Destination) : HostPath := ⟨Disk.pathOf dest.place⟩

/-- The destination that a path leads to, which must be a directory that may be written to. -/
def resolve (d : Disk) (path : HostPath) : Except ExtractError Destination :=
  match d.resolve path with
  | .error e => .error (.destinationUnavailable (path.text ++ ": " ++ e.message))
  | .ok (place, .directory) =>
    if place ∈ d.writeProtected then
      .error (.destinationUnavailable (Disk.pathOf place ++ ": directory is not writable"))
    else .ok ⟨place⟩
  | .ok _ => .error (.destinationUnavailable (path.text ++ ": not a directory"))

/-- Whether a path leads to a directory that may be written to. -/
def Usable (d : Disk) (path : HostPath) (dest : Destination) : Prop :=
  d.resolve path = .ok (dest.place, .directory) ∧ dest.place ∉ d.writeProtected

theorem resolve_eq_ok {d : Disk} {path : HostPath} {dest : Destination} :
    resolve d path = .ok dest ↔ Usable d path dest := by
  obtain ⟨place⟩ := dest
  unfold resolve Usable
  match d.resolve path with
  | .error e => simp
  | .ok (found, .directory) =>
    by_cases hprotected : found ∈ d.writeProtected
    · simp only [if_pos hprotected, reduceCtorEq, Except.ok.injEq, Prod.mk.injEq, and_true,
        false_iff, not_and]
      rintro rfl
      exact not_not_intro hprotected
    · simp only [if_neg hprotected, Except.ok.injEq, Prod.mk.injEq, mk.injEq, and_true,
        iff_self_and]
      rintro rfl
      exact hprotected
  | .ok (found, .file ..) | .ok (found, .link ..) | .ok (found, .device ..) => simp

/-- The destination of a platform, which may have none to offer. -/
def resolveOptional (d : Disk) : Option HostPath → Except ExtractError Destination
  | some path => resolve d path
  | none => .error (.destinationUnavailable "platform did not provide a files directory")

end Destination

end AssetUnpack
