import AssetUnpack.Proofs.Disk.Truth
import AssetUnpack.Proofs.Disk.WellFormed

/-!
# Every change an extraction asks for makes a disk grow

`Extends` was made for destinations without links, but the order itself does not
care about links, and neither do the changes: each puts one entry where a lookup
found the place free, or puts other bytes into a file, and what a lookup finds is
so. Hence creating files, making directories and writing extend any disk, however
its links are strung together.

A disk that has grown also answers as before wherever it had an answer. A lookup
that got to an entry passed through directories and links that are all still
there, so it gets to the same place again (`Extends.find`). Where there was no
answer one may turn up: a link that led nowhere leads somewhere once its target
is made.
-/

namespace AssetUnpack

theorem HostPath.isAbsolute_push {p : HostPath} (h : p.isAbsolute = true) (n : Name) :
    (p.push n).isAbsolute = true := by
  rw [isAbsolute, beq_iff_eq] at h ⊢
  unfold push
  simp only []
  split
  · rw [String.toList_append, List.head?_append, h, Option.some_or]
  · rw [String.toList_append, String.toList_append, List.append_assoc, List.head?_append, h,
      Option.some_or]

theorem HostPath.isAbsolute_under {base : HostPath} (h : base.isAbsolute = true)
    (q : AssetPath) : (base.under q).isAbsolute = true := by
  obtain ⟨names⟩ := q
  unfold under
  induction names generalizing base with
  | nil => exact h
  | cons n names ih => exact ih (isAbsolute_push h n)

namespace Disk

variable {d d' : Disk} {purpose : Purpose} {path : HostPath} {place : Place}

/-! ## Changes -/

theorem extends_createFile (h : d.createFile path = .ok (place, d')) : d.Extends d' := by
  cases createFile_creating h with
  | @new directory name hfind hfree =>
      intro q e he
      rw [get?_putFile _ _ _ (by simp)]
      by_cases hq : q = directory ++ [name]
      · rw [hq, hfree] at he
        cases he
      · rw [if_neg hq]
        exact ⟨e, he, rfl⟩
  | emptied hfind hthere =>
      refine extends_put (ne_nil_of_file hthere) fun e he => ?_
      rw [hthere] at he
      cases he
      rfl
  | device => exact Extends.refl d

theorem extends_setContent (d : Disk) (place : Place) (content : Bytes) :
    d.Extends (d.setContent place content) := by
  unfold setContent
  split
  · next number bytes hthere =>
      refine extends_put (ne_nil_of_file hthere) fun e he => ?_
      rw [hthere] at he
      cases he
      rfl
  · exact Extends.refl d

theorem extends_makeDirectory (h : d.makeDirectory path = .ok d') : d.Extends d' := by
  unfold makeDirectory at h
  cases hfind : d.find .entry path with
  | error e =>
      rw [hfind] at h
      cases h
  | ok f =>
      rw [hfind] at h
      cases f with
      | entry q e => cases h
      | vacant directory name =>
          have hfree : d.get? (directory ++ [name]) = none := find_truthful hfind
          rw [← Except.ok.inj h]
          refine extends_put (by simp) fun e he => ?_
          rw [hfree] at he
          cases he

theorem extends_makeChain (d : Disk) (paths : List HostPath) :
    d.Extends (d.makeChain paths).2 := by
  induction paths with
  | nil => exact Extends.refl d
  | cons path above ih =>
      unfold makeChain
      split
      · next hmade => exact extends_makeDirectory hmade
      · split
        · split
          · next habove =>
              rw [habove] at ih
              exact ih
          · next habove =>
              rw [habove] at ih
              split
              · next hmade => exact ih.trans (extends_makeDirectory hmade)
              · split <;> exact ih
        · split <;> exact Extends.refl d

theorem extends_makeDirectories (d : Disk) (path : HostPath) :
    d.Extends (d.makeDirectories path).2 := extends_makeChain d _

/-! ## Lookups -/

theorem Extends.link (h : d.Extends d') {target : String}
    (hd : d.get? place = some (.link target)) : d'.get? place = some (.link target) := by
  obtain ⟨e', he', hs⟩ := h place _ hd
  rw [he', DiskEntry.shape_eq_link.mp hs]

/-- An answer that a walk gives on both disks. -/
def SameEntry (result result' : Except IoError Found) : Prop :=
  ∀ place e, result = .ok (.entry place e) →
    ∃ e', result' = .ok (.entry place e') ∧ e'.shape = e.shape

theorem Extends.walkWith (h : d.Extends d')
    {onLink onLink' : Place → List String → Except IoError Found}
    (hlink : ∀ at_ steps, SameEntry (onLink at_ steps) (onLink' at_ steps)) (at_ : Place)
    (steps : List String) :
    SameEntry (d.walkWith purpose onLink at_ steps) (d'.walkWith purpose onLink' at_ steps) := by
  induction steps generalizing at_ with
  | nil =>
      intro place e hfound
      rw [Disk.walkWith.eq_def] at hfound ⊢
      simp only [] at hfound ⊢
      cases hat : d.get? at_ with
      | none =>
          rw [hat] at hfound
          cases hfound
      | some e₀ =>
          rw [hat] at hfound
          cases hfound
          obtain ⟨e', he', hs⟩ := h at_ e hat
          rw [he']
          exact ⟨e', rfl, hs⟩
  | cons step rest ih =>
      intro place e hfound
      rw [Disk.walkWith.eq_def] at hfound ⊢
      simp only [] at hfound ⊢
      cases hat : d.get? at_ with
      | none =>
          rw [hat] at hfound
          cases hfound
      | some e₀ =>
          rw [hat] at hfound
          cases e₀ with
          | file | link | device => cases hfound
          | directory =>
              rw [h.directory hat]
              simp only [] at hfound ⊢
              split at hfound
              · next hstay =>
                  rw [if_pos hstay]
                  exact ih _ place e hfound
              next hstay =>
              rw [if_neg hstay]
              split at hfound
              · next hup =>
                  rw [if_pos hup]
                  exact ih _ place e hfound
              next hup =>
              rw [if_neg hup]
              split at hfound
              · cases hfound
              next hasked =>
              rw [if_neg hasked]
              split at hfound
              · cases hfound
              next hlong =>
              rw [if_neg hlong]
              cases hnext : d.get? (at_ ++ [step]) with
              | none =>
                  -- A free name is no entry.
                  rw [hnext] at hfound
                  simp only [] at hfound
                  split at hfound <;> cases hfound
              | some e₁ =>
                  rw [hnext] at hfound
                  cases e₁ with
                  | link target =>
                      rw [h.link hnext]
                      simp only [] at hfound ⊢
                      split at hfound
                      · next hend =>
                          rw [if_pos hend]
                          exact ⟨e, hfound, rfl⟩
                      next hend =>
                      rw [if_neg hend]
                      split at hfound
                      · cases hfound
                      · next htarget =>
                          rw [if_neg htarget]
                          exact hlink _ _ place e hfound
                  | directory =>
                      rw [h.directory hnext]
                      exact ih _ place e hfound
                  | file number bytes =>
                      obtain ⟨e', he', hs⟩ := h _ _ hnext
                      obtain ⟨content, rfl⟩ := DiskEntry.shape_eq_file.mp hs
                      rw [he']
                      exact ih _ place e hfound
                  | device dev =>
                      obtain ⟨e', he', hs⟩ := h _ _ hnext
                      obtain rfl := DiskEntry.shape_eq_device.mp hs
                      rw [he']
                      exact ih _ place e hfound

theorem Extends.walk (h : d.Extends d') (links : Nat) (at_ : Place) (steps : List String) :
    SameEntry (d.walk purpose links at_ steps) (d'.walk purpose links at_ steps) := by
  induction links generalizing at_ steps with
  | zero => exact h.walkWith (fun _ _ _ _ hl => by cases hl) at_ steps
  | succ links ih => exact h.walkWith (fun at_ steps => ih at_ steps) at_ steps

/-- What a path led to it still leads to, if it starts where it started. -/
theorem Extends.find (h : d.Extends d')
    (hstart : path.isAbsolute = true ∨ d'.workingDirectory = d.workingDirectory) :
    SameEntry (d.find purpose path) (d'.find purpose path) := by
  intro place e hfound
  unfold Disk.find at hfound ⊢
  cases hcheck : checkPath path with
  | error e =>
      rw [hcheck] at hfound
      cases hfound
  | ok checked =>
      have heq : checked = path := by
        unfold checkPath at hcheck
        split at hcheck
        · cases hcheck
        split at hcheck
        · cases hcheck
        split at hcheck
        · cases hcheck
        · exact (Except.ok.inj hcheck).symm
      subst heq
      rw [hcheck] at hfound
      have hsame : (if checked.isAbsolute then [] else d'.workingDirectory) =
          if checked.isAbsolute then [] else d.workingDirectory := by
        rcases hstart with habs | hhome
        · rw [if_pos habs, if_pos habs]
        · rw [hhome]
      simp only [bind, Except.bind, hsame] at hfound ⊢
      exact h.walk linkLimit _ _ place e hfound

theorem Extends.resolve (h : d.Extends d')
    (hstart : path.isAbsolute = true ∨ d'.workingDirectory = d.workingDirectory) {e : DiskEntry}
    (hresolve : d.resolve path = .ok (place, e)) :
    ∃ e', d'.resolve path = .ok (place, e') ∧ e'.shape = e.shape := by
  unfold Disk.resolve at hresolve ⊢
  cases hfind : d.find .target path with
  | error e =>
      rw [hfind] at hresolve
      cases hresolve
  | ok f =>
      rw [hfind] at hresolve
      cases f with
      | vacant => cases hresolve
      | entry q e₀ =>
          cases hresolve
          obtain ⟨e', he', hs⟩ := h.find hstart place e hfind
          rw [he']
          exact ⟨e', rfl, hs⟩

/-- A path at which a file is created that was there leads to that file. -/
theorem resolve_of_createFile (h : d.createFile path = .ok (place, d')) {number : Nat}
    {bytes : Bytes} (hfile : d.get? place = some (.file number bytes)) :
    d.resolve path = .ok (place, .file number bytes) := by
  cases createFile_creating h with
  | new hfind hfree =>
      rw [hfree] at hfile
      cases hfile
  | emptied hfind hthere =>
      rw [hfile] at hthere
      cases hthere
      rw [Disk.resolve, find_target_of_creation hfind]
  | device hfind hthere =>
      rw [hthere] at hfile
      cases hfile

end Disk

end AssetUnpack
