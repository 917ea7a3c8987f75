import AssetUnpack.Proofs.Extraction.InStep
import AssetUnpack.Proofs.Stream.Delivery
import AssetUnpack.Source.Scripted

/-!
# Sources that differ in faults only

A fault is one of three things: a node cannot be listed, an asset cannot be opened,
or it breaks off while it is read. `Faulty` says that one source is another with
such faults at given paths and answers the same everywhere else. Only leaves fail to
open or to be read. A starting node that cannot be listed would be no fault of a
run, there would be no run.

The faults that `withFaults` puts into a source are of this kind, as long as it is
asked to break leaves of plain bytes, and no kinds are withheld
(`faulty_withFaults`).
-/

namespace AssetUnpack.Extraction

/-- The first source without its faults, the second with them. -/
structure Faulty (s s' : LiveSource) (root : AssetPath)
    (unlisted unopened unread : AssetPath → Prop) : Prop where
  byPath : s.ByPath
  byPath' : s'.ByPath
  root_listed : ¬ unlisted root
  kind : ∀ r path, s'.kind r path = s.kind r path
  list_fails : ∀ path, unlisted path → ∀ r, ∃ e, (s'.list r path).1 = .error e
  list_same : ∀ path, ¬ unlisted path → ∀ r, (s'.list r path).1 = (s.list r path).1
  /-- What cannot be opened or read has no children, and is not said to be a
  directory. -/
  leaf : ∀ path, unopened path ∨ unread path → ∀ r,
    (s.list r path).1 = .ok [] ∧ s.kind r path ≠ some .directory
  open_fails : ∀ path, unopened path → ∀ r, ∃ e, s'.openAsset r path = .error e
  open_same : ∀ path, ¬ unopened path → ¬ unread path → ∀ r,
    s'.openAsset r path = s.openAsset r path
  /-- What is opened all the same breaks off while it is read. -/
  read_fails : ∀ path, unread path → ∀ r part, s'.openAsset r path = .ok part →
    ∃ whole, s.openAsset r path = .ok whole ∧
      ∀ d, Reader.BreaksOff Copy.bufferSize (part d) (whole d)

section Answers

variable {s s' : LiveSource} {root : AssetPath} {unlisted unopened unread : AssetPath → Prop}

theorem Faulty.list_eq (h : Faulty s s' root unlisted unopened unread) {path : AssetPath}
    (hlisted : ¬ unlisted path) {r : Run} {answer : Except IoError (List String)}
    {events : List Event} (hlist : s.list r path = (answer, events)) (r' : Run) :
    ∃ events', s'.list r' path = (answer, events') := by
  have hsame := h.list_same path hlisted r'
  rw [h.byPath.list r' r, hlist] at hsame
  exact ⟨(s'.list r' path).2, Prod.ext hsame rfl⟩

theorem Faulty.agreed (h : Faulty s s' root unlisted unopened unread) {path : AssetPath}
    (hsound : ¬ (unopened path ∨ unread path)) (place : AssetPath) :
    (Task.leaf path place).Agreed s s' := by
  rw [not_or] at hsound
  exact fun r => ⟨h.kind r path, h.open_same path hsound.1 hsound.2 r⟩

end Answers

/-! ## Faults put into a source -/

section WithFaults

variable {s : Source} {f : Faults} {disk : Disk} {path : AssetPath}

theorem withFaults_list (s : Source) (f : Faults) (disk : Disk) (path : AssetPath) :
    (s.withFaults f).list disk path =
      match f.list.get? path with
      | some e => (.error e, [])
      | none => s.list disk path := rfl

theorem withFaults_openAsset (s : Source) (f : Faults) (disk : Disk) (path : AssetPath) :
    (s.withFaults f).openAsset disk false path =
      match f.openAsset.get? path with
      | some e => .error e
      | none =>
        match s.openAsset disk false path, f.read.get? path with
        | .ok content, some (n, e) => .ok fun d => Reader.failAfter e n (content d)
        | result, _ => result := rfl

/-- What can be opened can be opened without the faults, and is the same or breaks
off. -/
theorem withFaults_openAsset_eq_ok {part : Content}
    (h : (s.withFaults f).openAsset disk false path = .ok part) :
    ∃ whole, s.openAsset disk false path = .ok whole ∧
      ((f.read.get? path = none ∧ part = whole) ∨
        ∃ n e, f.read.get? path = some (n, e) ∧ part = fun d => Reader.failAfter e n (whole d)) := by
  rw [withFaults_openAsset] at h
  cases hfault : f.openAsset.get? path with
  | some e =>
      rw [hfault] at h
      cases h
  | none =>
      rw [hfault] at h
      cases hopen : s.openAsset disk false path with
      | error e =>
          rw [hopen] at h
          cases h
      | ok whole =>
          rw [hopen] at h
          cases hread : f.read.get? path with
          | none =>
              rw [hread] at h
              exact ⟨whole, rfl, Or.inl ⟨rfl, (Except.ok.inj h).symm⟩⟩
          | some broken =>
              rw [hread] at h
              exact ⟨whole, rfl, Or.inr ⟨broken.1, broken.2, rfl, (Except.ok.inj h).symm⟩⟩

theorem byPath_withFaults (hs : (LiveSource.ofSource s).ByPath) (f : Faults) :
    (LiveSource.ofSource (s.withFaults f)).ByPath where
  list r r' path := by
    show (s.withFaults f).list r.disk path = (s.withFaults f).list r'.disk path
    rw [withFaults_list, withFaults_list]
    cases f.list.get? path with
    | none => exact hs.list r r' path
    | some e => rfl
  kind r r' path := by
    show (if f.withholdKinds then none else s.kind r.disk path) =
      if f.withholdKinds then none else s.kind r'.disk path
    split
    · rfl
    · exact hs.kind r r' path
  openAsset r r' path := by
    have hsame : s.openAsset r.disk false path = s.openAsset r'.disk false path :=
      hs.openAsset r r' path
    show (s.withFaults f).openAsset r.disk false path =
      (s.withFaults f).openAsset r'.disk false path
    rw [withFaults_openAsset, withFaults_openAsset, hsame]
  content {r path part} hopen d d' := by
    obtain ⟨whole, hwhole, hpart⟩ := withFaults_openAsset_eq_ok hopen
    have hsame := hs.content (r := r) hwhole d d'
    rcases hpart with ⟨-, rfl⟩ | ⟨n, e, -, rfl⟩
    · exact hsame
    · simp only [hsame]

/-- A source whose assets are plain bytes, with faults put into it that are of this
kind. -/
theorem faulty_withFaults (hs : (LiveSource.ofSource s).ByPath) (f : Faults) (root : AssetPath)
    (hkinds : f.withholdKinds = false) (hroot : f.list.get? root = none)
    (hleaf : ∀ path, f.openAsset.get? path ≠ none ∨ f.read.get? path ≠ none → ∀ disk,
      (s.list disk path).1 = .ok [] ∧ s.kind disk path ≠ some .directory)
    (hread : ∀ path n e, f.read.get? path = some (n, e) → e.isInterrupted = false ∧
      ∀ disk content, s.openAsset disk false path = .ok content →
        ∃ bytes : Bytes, n ≤ bytes.length ∧ ∀ d, content d = .ofBytes bytes) :
    Faulty (.ofSource s) (.ofSource (s.withFaults f)) root (f.list.get? · ≠ none)
      (f.openAsset.get? · ≠ none) (f.read.get? · ≠ none) where
  byPath := hs
  byPath' := byPath_withFaults hs f
  root_listed := fun h => h hroot
  kind r path := by
    show (if f.withholdKinds then none else s.kind r.disk path) = s.kind r.disk path
    rw [hkinds]
    rfl
  list_fails path hpath r := by
    obtain ⟨e, he⟩ := Option.ne_none_iff_exists'.mp hpath
    refine ⟨e, ?_⟩
    show ((s.withFaults f).list r.disk path).1 = _
    rw [withFaults_list, he]
  list_same path hpath r := by
    show ((s.withFaults f).list r.disk path).1 = (s.list r.disk path).1
    rw [withFaults_list, Decidable.not_not.mp hpath]
  leaf path hpath r := hleaf path hpath r.disk
  open_fails path hpath r := by
    obtain ⟨e, he⟩ := Option.ne_none_iff_exists'.mp hpath
    refine ⟨e, ?_⟩
    show (s.withFaults f).openAsset r.disk false path = _
    rw [withFaults_openAsset, he]
  open_same path hopen hread r := by
    show (s.withFaults f).openAsset r.disk false path = s.openAsset r.disk false path
    rw [withFaults_openAsset, Decidable.not_not.mp hopen, Decidable.not_not.mp hread]
    cases s.openAsset r.disk false path <;> rfl
  read_fails path hpath r part hopen := by
    obtain ⟨whole, hwhole, hpart⟩ := withFaults_openAsset_eq_ok hopen
    refine ⟨whole, hwhole, fun d => ?_⟩
    rcases hpart with ⟨hnone, -⟩ | ⟨n, e, hsome, rfl⟩
    · exact absurd hnone hpath
    · obtain ⟨he, hplain⟩ := hread path n e hsome
      obtain ⟨bytes, hn, hbytes⟩ := hplain r.disk whole hwhole
      simp only [hbytes]
      exact Reader.breaksOff_failAfter (by decide) he hn

end WithFaults

end AssetUnpack.Extraction
