import AssetUnpack.Proofs.Extraction.Containment
import AssetUnpack.Proofs.Extraction.Onto

/-!
# When source and destination overlap

A directory can be extracted into itself, into a directory inside it or into one
above it, and links can make the two meet anywhere. So nothing is assumed here
of the disk. A regular file that is there when a run starts is there when it
ends, and it holds what the run last wrote to it, or what it held before
(`runLive_file`). Without force nothing is written to it. With force it can be
overwritten, with other bytes or, where the two are one directory, with none.

`run_intact_iff` says exactly when the files below a directory come through.
-/

namespace AssetUnpack.Extraction

/-- What a call writes to a place. -/
def DiskCall.bytesFor (place : Place) : DiskCall → Option Bytes
  | .write written bytes => if written = place then some bytes else none
  | _ => none

/-- What the last of the calls writes that writes to a place. -/
def lastWrite (place : Place) : List DiskCall → Option Bytes
  | [] => none
  | c :: cs => (lastWrite place cs).or (c.bytesFor place)

theorem lastWrite_append (place : Place) (cs cs' : List DiskCall) :
    lastWrite place (cs ++ cs') = (lastWrite place cs').or (lastWrite place cs) := by
  induction cs with
  | nil => rw [List.nil_append, lastWrite, Option.or_none]
  | cons c cs ih => rw [List.cons_append, lastWrite, lastWrite, ih, Option.or_assoc]

section File

variable {force : Bool} {dest : HostPath} {d : Disk} {cs : List DiskCall} {place : Place}
  {number : Nat} {bytes : Bytes}

/-- A file that is there stays, with what is written to it last. -/
theorem Asked.file_of (h : Asked force dest d cs)
    (hfile : d.get? place = some (.file number bytes)) :
    (replay d cs).get? place = some (.file number ((lastWrite place cs).getD bytes)) := by
  cases h with
  | nothing => exact hfile
  | directory => exact Disk.file_of_makeDirectories dest hfile
  | refused hcreate =>
      simp only [replay, List.foldl_cons, List.foldl_nil, DiskCall.carryOut, hcreate]
      exact hfile
  | @file written created content hcreate =>
      have hcreated := Disk.file_of_createFile hcreate hfile
      have hset := Disk.file_of_setContent hcreated written content
      simp only [replay, List.foldl_cons, List.foldl_nil, DiskCall.carryOut, hcreate]
      rw [hset]
      by_cases hw : written = place
      · simp [lastWrite, DiskCall.bytesFor, hw]
      · simp [lastWrite, DiskCall.bytesFor, hw]

/-- Without force nothing is written to a file that is there. -/
theorem Asked.lastWrite_eq_none (h : Asked false dest d cs) (hthere : d.get? place ≠ none) :
    lastWrite place cs = none := by
  cases h with
  | nothing | directory | refused => rfl
  | @file written created content hcreate hnew =>
      have hfree := hnew.resolve_left (by simp)
      have hw : ¬ written = place := by
        rintro rfl
        exact hthere hfree
      simp [lastWrite, DiskCall.bytesFor, hw]

end File

/-! ## A run on any disk -/

section Run

variable {s : LiveSource} {config : ExtractConfig} {dest : Destination} {disk : Disk}
  {place : Place} {number : Nat} {bytes : Bytes}

theorem runLive_induction (s : LiveSource) (config : ExtractConfig) (dest : Destination)
    (disk : Disk) {P : List DiskCall → Disk → Prop} (hstart : P [] disk)
    (hstep : ∀ path calls d cs, P calls d → Asked config.force path d cs →
      P (calls ++ cs) (replay d cs)) :
    P (runLive s config dest disk).calls (runLive s config dest disk).disk := by
  match hlist : s.list { disk := disk } config.sourceRoot with
  | (.error e, events) =>
      rw [runLive_of_error hlist]
      exact hstart
  | (.ok names, events) =>
      rw [runLive_of_list hlist]
      refine performAll_induction (P := fun r => P r.calls r.disk) (fun t _ r hr => ?_) hstart
      cases hplace : t.place? with
      | none =>
          obtain ⟨hdisk, hcalls⟩ := Task.perform_of_none s config dest.path hplace r
          rw [hdisk, hcalls]
          exact hr
      | some place =>
          obtain ⟨cs, hasked, hcalls, hdisk⟩ :=
            Task.perform_advances s config dest.path hplace r
          rw [hdisk, hcalls]
          exact hstep _ _ _ _ hr hasked

/-- A file that is there before a run is there after it, and holds what the run
wrote to it last, or else what it held. -/
theorem runLive_file (s : LiveSource) (config : ExtractConfig) (dest : Destination)
    (hfile : disk.get? place = some (.file number bytes)) :
    (runLive s config dest disk).disk.get? place =
      some (.file number ((lastWrite place (runLive s config dest disk).calls).getD bytes)) := by
  refine runLive_induction s config dest disk
    (P := fun calls d => d.get? place = some (.file number ((lastWrite place calls).getD bytes)))
    hfile fun path calls d cs hd hasked => ?_
  rw [hasked.file_of hd, lastWrite_append]
  cases lastWrite place cs <;> rfl

theorem runLive_lastWrite_eq_none (s : LiveSource) (dest : Destination)
    (hforce : config.force = false) (hfile : disk.get? place = some (.file number bytes)) :
    lastWrite place (runLive s config dest disk).calls = none := by
  have h := runLive_induction s config dest disk
    (P := fun calls d => d.get? place = some (.file number bytes) ∧ lastWrite place calls = none)
    ⟨hfile, rfl⟩ fun path calls d cs hd hasked => ?_
  · exact h.2
  · rw [hforce] at hasked
    have hthere : d.get? place ≠ none := by
      rw [hd.1]
      exact Option.some_ne_none _
    have hnone := hasked.lastWrite_eq_none hthere
    refine ⟨?_, by rw [lastWrite_append, hnone, hd.2, Option.or_none]⟩
    rw [hasked.file_of hd.1, hnone, Option.getD_none]

end Run

/-! ## A directory as the source -/

/-- The regular files below a directory are still there and hold what they
held. -/
def Intact (root : Place) (d d' : Disk) : Prop :=
  ∀ place number bytes, StrictlyBelow root place → d.get? place = some (.file number bytes) →
    ∃ number', d'.get? place = some (.file number' bytes)

/-- Whether the calls of a run leave the bytes of the files below a directory as
they are: what is written to one of them last is what it held. -/
def Harmless (root : Place) (d : Disk) (calls : List DiskCall) : Prop :=
  ∀ place number bytes written, StrictlyBelow root place →
    d.get? place = some (.file number bytes) → lastWrite place calls = some written →
    written = bytes

section Directory

variable {base : HostPath} {root : Place} {config : ExtractConfig} {dest : Destination}
  {disk : Disk}

theorem intact_iff_harmless :
    Intact root disk (run (.ofDirectory base) config dest disk).disk ↔
      Harmless root disk (run (.ofDirectory base) config dest disk).calls := by
  constructor
  · intro hintact place number bytes written hbelow hfile hlast
    obtain ⟨number', hafter⟩ := hintact place number bytes hbelow hfile
    have hholds := runLive_file (.ofSource (.ofDirectory base)) config dest hfile
    have hwritten : lastWrite place
        (runLive (.ofSource (.ofDirectory base)) config dest disk).calls = some written := hlast
    rw [hwritten, Option.getD_some] at hholds
    have heq := hholds.symm.trans hafter
    simp only [Option.some.injEq, DiskEntry.file.injEq] at heq
    exact heq.2
  · intro hharmless place number bytes hbelow hfile
    refine ⟨number, ?_⟩
    have hholds := runLive_file (.ofSource (.ofDirectory base)) config dest hfile
    cases hlast : lastWrite place
        (runLive (.ofSource (.ofDirectory base)) config dest disk).calls with
    | none =>
        rw [hlast] at hholds
        exact hholds
    | some written =>
        rw [hlast, Option.getD_some, hharmless place number bytes written hbelow hfile hlast]
          at hholds
        exact hholds

theorem intact_of_no_force (hforce : config.force = false) :
    Intact root disk (run (.ofDirectory base) config dest disk).disk := by
  refine intact_iff_harmless.mpr fun place number bytes written _ hfile hlast => ?_
  have hnone := runLive_lastWrite_eq_none (.ofSource (.ofDirectory base)) dest hforce hfile
  have hwritten : lastWrite place
      (runLive (.ofSource (.ofDirectory base)) config dest disk).calls = some written := hlast
  rw [hnone] at hwritten
  cases hwritten

theorem intact_of_apart (hfree : disk.LinkFreeAt dest.place)
    (hapart : ∀ place, StrictlyBelow root place → ¬ StrictlyBelow dest.place place) :
    Intact root disk (run (.ofDirectory base) config dest disk).disk := by
  intro place number bytes hbelow hfile
  obtain ⟨hreplay, hinside, -⟩ :=
    runLive_inside (.ofSource (.ofDirectory base)) config dest disk hfree
  have houtside := (hinside _ (List.prefix_refl _)).1 place (hapart place hbelow)
  rw [← hreplay] at houtside
  exact ⟨number, houtside.trans hfile⟩

end Directory

/-- Extracting a directory that lies anywhere, to anywhere. No regular file below
`root` goes away. All of them hold what they held exactly if the last write to
each, if any, puts back what it held. This is so if force is off, and if the
destination is free of links and no file below `root` is below it. With force
and the source for a destination every file that the walk can name is emptied. -/
theorem run_intact_iff (base : HostPath) (root : Place) (config : ExtractConfig)
    (dest : Destination) (disk : Disk) :
    let out := run (.ofDirectory base) config dest disk
    (∀ place number bytes, StrictlyBelow root place →
        disk.get? place = some (.file number bytes) →
        ∃ content, out.disk.get? place = some (.file number content)) ∧
      (Intact root disk out.disk ↔ Harmless root disk out.calls) ∧
      (config.force = false → Intact root disk out.disk) ∧
      (disk.LinkFreeAt dest.place →
        (∀ place, StrictlyBelow root place → ¬ StrictlyBelow dest.place place) →
        Intact root disk out.disk) ∧
      (config.force = true → config.sourceRoot = .root → base = dest.path →
        disk.LinkFreeAt dest.place → ∀ (q : AssetPath) number bytes,
        disk.get? (q.below dest.place) = some (.file number bytes) →
        (Disk.pathOf (q.below dest.place)).utf8ByteSize < Disk.pathLimit →
        out.disk.get? (q.below dest.place) = some (.file number [])) := by
  intro out
  refine ⟨fun place number bytes _ hfile => ⟨_, runLive_file _ config dest hfile⟩,
    intact_iff_harmless, intact_of_no_force, intact_of_apart,
    fun hforce hroot hbase hfree q number bytes hfile hshort => ?_⟩
  subst hbase
  exact run_onto_itself config hforce hroot dest hfree hfile hshort

theorem run_intact_small :
    Intact ["in"] Disk.small (run (.ofDirectory ⟨"/in"⟩) {} ⟨["in"]⟩ Disk.small).disk ∧
      Disk.small.LinkFreeAt ["out"] ∧
      Intact ["in"] Disk.small
        (run (.ofDirectory ⟨"/in"⟩) { force := true } ⟨["out"]⟩ Disk.small).disk ∧
      (run (.ofDirectory ⟨"/in"⟩) { force := true } ⟨["in"]⟩ Disk.small).disk.get? ["in", "a"] =
        some (.file 1 []) := by
  have hapart : ∀ place, StrictlyBelow ["in"] place → ¬ StrictlyBelow ["out"] place := by
    rintro place ⟨names, -, rfl⟩ ⟨names', -, h⟩
    exact absurd (List.cons.inj h).1 (by decide)
  refine ⟨(run_intact_iff ⟨"/in"⟩ ["in"] {} ⟨["in"]⟩ Disk.small).2.2.1 rfl,
    Disk.linkFreeAt_small_out,
    (run_intact_iff ⟨"/in"⟩ ["in"] { force := true } ⟨["out"]⟩ Disk.small).2.2.2.1
      Disk.linkFreeAt_small_out hapart, ?_⟩
  exact (run_intact_iff ⟨"/in"⟩ ["in"] { force := true } ⟨["in"]⟩ Disk.small).2.2.2.2 rfl rfl rfl
    Disk.linkFreeAt_small_in ⟨[Disk.fileNamed]⟩ 1 [104, 105] rfl (by decide)

/-- Extracting a directory into itself with force loses its files. -/
theorem run_loses_small :
    Source.openDirectory Disk.small ⟨"/in"⟩ = .ok (.ofDirectory ⟨"/in"⟩) ∧
      Destination.resolve Disk.small ⟨"/in"⟩ = .ok ⟨["in"]⟩ ∧
      ¬ Intact ["in"] Disk.small
        (run (.ofDirectory ⟨"/in"⟩) { force := true } ⟨["in"]⟩ Disk.small).disk := by
  have hresolve : Disk.small.resolve ⟨"/in"⟩ = .ok (["in"], .directory) :=
    Disk.linkFreeAt_small.wellFormed.resolve_directory Disk.linkFreeAt_small_in.directory
      (by decide)
  refine ⟨by rw [Source.openDirectory, hresolve],
    Destination.resolve_eq_ok.mpr ⟨hresolve, by decide⟩, fun hintact => ?_⟩
  obtain ⟨number, hkept⟩ := hintact ["in", "a"] 1 [104, 105] ⟨["a"], by simp, rfl⟩ rfl
  have hfile : Disk.small.get? (AssetPath.below ⟨[Disk.fileNamed]⟩ ["in"]) =
      some (.file 1 [104, 105]) := rfl
  have hlost := run_onto_itself { force := true } rfl rfl ⟨["in"]⟩ Disk.linkFreeAt_small_in hfile
    (by decide)
  exact absurd (hkept.symm.trans hlost) (by simp)

end AssetUnpack.Extraction
