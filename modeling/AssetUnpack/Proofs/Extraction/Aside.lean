import AssetUnpack.Proofs.Disk.Growth
import AssetUnpack.Proofs.Extraction.Containment
import AssetUnpack.Source.Directory

/-!
# What a run leaves as it was

A source that reads a directory answers from the disk that the run is writing on.
So whatever its answers depend on has to be followed through the run: what stands
outside the destination, where relative paths start, that links turn up nowhere, and
that the table of the disk has one entry for a place. `Aside` says that these are
what they were when the run started, next to what a run always keeps (`Underway`).

With it a path that led to a directory when the run started leads there at every
moment of the run (`Aside.resolve`).
-/

namespace AssetUnpack.Extraction

open Disk (pathOf)

/-- A directory as a run meets it. -/
abbrev directorySource (base : HostPath) : LiveSource := .ofSource (.ofDirectory base)

section Laid

variable {d d' : Disk} {parent : Place} {name : String}

theorem Laid.workingDirectory_eq (h : Laid parent name d d') :
    d'.workingDirectory = d.workingDirectory := by
  rcases h with rfl | ⟨-, rfl | ⟨bytes, rfl⟩⟩
  · rfl
  · unfold Disk.house
    split <;> rfl
  · unfold Disk.keep
    split <;> rfl

theorem Laid.keys_nodup (h : Laid parent name d d') (hkeys : d.table.keys.Nodup) :
    d'.table.keys.Nodup := by
  rcases h with rfl | ⟨-, rfl | ⟨bytes, rfl⟩⟩
  · exact hkeys
  · unfold Disk.house
    split
    · exact Table.keys_put_nodup hkeys _ _
    · exact hkeys
  · unfold Disk.keep
    split
    · exact Table.keys_put_nodup hkeys _ _
    · exact Table.keys_put_nodup hkeys _ _
    · exact hkeys

end Laid

/-- What holds of a run into `base` that started on `d₀` and has seen to the
directories `known`, and of what it has left as it was. -/
structure Aside (d₀ : Disk) (base : Place) (known : List AssetPath) (r : Run) : Prop where
  underway : Underway d₀ base known r
  outside : ∀ q, ¬ StrictlyBelow base q → r.disk.get? q = d₀.get? q
  home : r.disk.workingDirectory = d₀.workingDirectory
  linkFree : ∀ place, d₀.LinkFreeAt place → r.disk.LinkFreeAt place
  keys : d₀.table.keys.Nodup → r.disk.table.keys.Nodup

section Run

variable {d₀ : Disk} {base : Place} {known : List AssetPath} {r r' : Run} {t : Task}

theorem aside_opening (h : d₀.LinkFreeAt base) (config : ExtractConfig) (dest : Destination)
    (events : List Event) : Aside d₀ base [.root] (opening config dest d₀ events) :=
  ⟨underway_opening h config dest events, fun _ _ => rfl, rfl, fun _ hfree => hfree,
    fun hkeys => hkeys⟩

/-- Only the disk matters to it. -/
theorem Aside.congr (h : Aside d₀ base known r) (hdisk : r'.disk = r.disk) :
    Aside d₀ base known r' := by
  obtain ⟨⟨hfree, hgrown, hsettled⟩, houtside, hhome, hlinks, hkeys⟩ := h
  rw [← hdisk] at hfree hgrown hsettled houtside hhome hlinks hkeys
  exact ⟨⟨hfree, hgrown, hsettled⟩, houtside, hhome, hlinks, hkeys⟩

/-- Every task in a known directory keeps it. -/
theorem Aside.perform (h : Aside d₀ base known r) (s : LiveSource) (config : ExtractConfig)
    (hw : t.Within known) :
    Aside d₀ base (t.seeTo known) (t.perform s config ⟨pathOf base⟩ r) := by
  have hunder := h.underway.perform s config hw
  cases hplace : t.place? with
  | none =>
      have hsame := h.congr (Task.perform_of_none s config ⟨pathOf base⟩ hplace r).1
      exact ⟨hunder, hsame.outside, hsame.home, hsame.linkFree, hsame.keys⟩
  | some place =>
      obtain ⟨names, n, rfl, hmem⟩ := hw place hplace
      have hlaid := Task.laid h.underway.free s config hplace (h.underway.opens_or_barred hmem n)
      refine ⟨hunder, fun q hq => ?_, hlaid.workingDirectory_eq.trans h.home,
        fun place hfree => hlaid.linkFreeAt (h.linkFree place hfree) n.entryName,
        fun hkeys => hlaid.keys_nodup (h.keys hkeys)⟩
      have hother : q ≠ AssetPath.below ⟨names⟩ base ++ [n.text] := by
        rintro rfl
        exact hq (strictlyBelow_below names n base)
      exact (hlaid.get?_of_ne hother).trans (h.outside q hq)

/-- Tasks in order keep it, for every directory known before them. -/
theorem Aside.performAll (h : Aside d₀ base known r) (s : LiveSource) (config : ExtractConfig)
    {tasks : List Task} (ho : Ordered known tasks) :
    Aside d₀ base known (performAll s config ⟨pathOf base⟩ tasks r) := by
  have hunder := h.underway.performAll s config ho
  obtain ⟨known', hend⟩ := performAll_ordered (P := Aside d₀ base)
    (fun _ _ _ hr hw => hr.perform s config hw) ho h
  exact ⟨hunder, hend.outside, hend.home, hend.linkFree, hend.keys⟩

/-- Tasks in order take nothing away. -/
theorem Aside.grows (h : Aside d₀ base known r) (s : LiveSource) (config : ExtractConfig)
    {tasks : List Task} (ho : Ordered known tasks) :
    r.disk.Extends (Extraction.performAll s config ⟨pathOf base⟩ tasks r).disk := by
  have hhere : Underway r.disk base known r :=
    ⟨h.underway.free, Disk.Extends.refl _, h.underway.settled⟩
  exact (hhere.performAll s config ho).grown

/-- A directory that a path led to when the run started it leads to still. -/
theorem Aside.resolve (h : Aside d₀ base known r) {path : HostPath} {place : Place}
    (hpath : d₀.resolve path = .ok (place, .directory)) :
    r.disk.resolve path = .ok (place, .directory) := by
  obtain ⟨e, hresolve, hshape⟩ := h.underway.grown.resolve (Or.inr h.home) hpath
  rw [hresolve, DiskEntry.shape_eq_directory.mp hshape]

end Run

end AssetUnpack.Extraction
