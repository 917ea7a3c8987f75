import AssetUnpack.Disk.Change

/-!
# A lookup tells the truth

On any disk, full of links or not, what a lookup reports is so: the entry it
leads to stands there, and a name that it calls free is free (`find_truthful`).
That is all that is needed to see what the changes of a disk do to a file that
is there already. Creating a file empties it if the path leads to it, writing
replaces what it holds, and nothing else that an extraction asks for touches it.

A lookup for creating a file succeeds less often than one for whatever is there
and otherwise agrees with it (`find_target_of_creation`), so whoever asks first
whether there is anything creates new files only.
-/

namespace AssetUnpack

/-- Whether what a lookup reports is so. -/
def Found.Truthful (d : Disk) : Found → Prop
  | .entry place e => d.get? place = some e
  | .vacant directory name => d.get? (directory ++ [name]) = none

namespace Disk

variable {d : Disk} {purpose : Purpose}

theorem walkWith_truthful {onLink : Place → List String → Except IoError Found}
    (hlink : ∀ place steps f, onLink place steps = .ok f → f.Truthful d) {at_ : Place}
    {steps : List String} {f : Found} (h : d.walkWith purpose onLink at_ steps = .ok f) :
    f.Truthful d := by
  induction steps generalizing at_ with
  | nil =>
      rw [walkWith.eq_def] at h
      simp only [] at h
      split at h
      · next e he =>
          rw [← Except.ok.inj h]
          exact he
      · cases h
  | cons step rest ih =>
      rw [walkWith.eq_def] at h
      simp only [] at h
      split at h
      · cases h
      · split at h
        · exact ih h
        split at h
        · exact ih h
        split at h
        · cases h
        split at h
        · cases h
        split at h
        · next hnone =>
            split at h
            · rw [← Except.ok.inj h]
              exact hnone
            · cases h
        · next target hl =>
            split at h
            · rw [← Except.ok.inj h]
              exact hl
            split at h
            · cases h
            · exact hlink _ _ _ h
        · exact ih h
      · cases h

theorem walk_truthful {links : Nat} {at_ : Place} {steps : List String} {f : Found}
    (h : d.walk purpose links at_ steps = .ok f) : f.Truthful d := by
  induction links generalizing at_ steps f with
  | zero => exact walkWith_truthful (fun _ _ _ hl => by cases hl) h
  | succ links ih => exact walkWith_truthful (fun _ _ _ hl => ih hl) h

theorem find_truthful {path : HostPath} {f : Found} (h : d.find purpose path = .ok f) :
    f.Truthful d := by
  unfold find at h
  cases hcheck : checkPath path with
  | error e =>
      rw [hcheck] at h
      cases h
  | ok checked =>
      rw [hcheck] at h
      exact walk_truthful h

/-! ## Creating what is not there -/

theorem walkWith_target_of_creation {onLink onLink' : Place → List String → Except IoError Found}
    (hlink : ∀ place steps f, onLink place steps = .ok f → onLink' place steps = .ok f)
    {at_ : Place} {steps : List String} {f : Found}
    (h : d.walkWith .creation onLink at_ steps = .ok f) :
    d.walkWith .target onLink' at_ steps = .ok f := by
  induction steps generalizing at_ with
  | nil => exact h
  | cons step rest ih =>
      rw [walkWith.eq_def] at h ⊢
      simp only [] at h ⊢
      cases hat : d.get? at_ with
      | none =>
          rw [hat] at h
          cases h
      | some e =>
          rw [hat] at h
          cases e with
          | file | link | device => cases h
          | directory =>
              simp only [] at h ⊢
              split at h
              · next hstay =>
                  rw [if_pos hstay]
                  exact ih h
              next hstay =>
              rw [if_neg hstay]
              split at h
              · next hup =>
                  rw [if_pos hup]
                  exact ih h
              next hup =>
              rw [if_neg hup, if_neg (fun hc => by cases hc.1)]
              split at h
              · cases h
              split at h
              · cases h
              next hlong =>
              rw [if_neg hlong]
              cases hnext : d.get? (at_ ++ [step]) with
              | none =>
                  rw [hnext] at h
                  exact h
              | some e' =>
                  rw [hnext] at h
                  cases e' with
                  | directory | file | device => exact ih h
                  | link target =>
                      simp only [] at h ⊢
                      rw [if_neg (fun hc => by cases hc.2)] at h ⊢
                      split at h
                      · cases h
                      · next htarget =>
                          rw [if_neg htarget]
                          exact hlink _ _ _ h

theorem walk_target_of_creation {links : Nat} {at_ : Place} {steps : List String} {f : Found}
    (h : d.walk .creation links at_ steps = .ok f) : d.walk .target links at_ steps = .ok f := by
  induction links generalizing at_ steps f with
  | zero => exact walkWith_target_of_creation (fun _ _ _ hl => hl) h
  | succ links ih => exact walkWith_target_of_creation (fun _ _ _ hl => ih hl) h

/-- Where a file can be created, a lookup of what is there agrees. -/
theorem find_target_of_creation {path : HostPath} {f : Found}
    (h : d.find .creation path = .ok f) : d.find .target path = .ok f := by
  unfold find at h ⊢
  cases hcheck : checkPath path with
  | error e =>
      rw [hcheck] at h
      cases h
  | ok checked =>
      rw [hcheck] at h
      exact walk_target_of_creation h

/-- How a file is created: at a free name, or by emptying the one that is there;
a device stays what it is. -/
inductive Creating (d : Disk) (path : HostPath) : Place → Disk → Prop
  | new {directory : Place} {name : String}
      (hfind : d.find .creation path = .ok (.vacant directory name))
      (hfree : d.get? (directory ++ [name]) = none) :
      Creating d path (directory ++ [name]) (d.putFile (directory ++ [name]) [])
  | emptied {place : Place} {number : Nat} {bytes : Bytes}
      (hfind : d.find .creation path = .ok (.entry place (.file number bytes)))
      (hthere : d.get? place = some (.file number bytes)) :
      Creating d path place (d.put place (.file number []))
  | device {place : Place} {dev : Device}
      (hfind : d.find .creation path = .ok (.entry place (.device dev)))
      (hthere : d.get? place = some (.device dev)) :
      Creating d path place d

theorem createFile_creating {path : HostPath} {place : Place} {created : Disk}
    (h : d.createFile path = .ok (place, created)) : Creating d path place created := by
  unfold createFile at h
  cases hfind : d.find .creation path with
  | error e =>
      rw [hfind] at h
      cases h
  | ok f =>
      have htrue := find_truthful hfind
      rw [hfind] at h
      cases f with
      | vacant directory name =>
          cases h
          exact .new hfind htrue
      | entry q e =>
          cases e with
          | directory | link => cases h
          | device dev =>
              cases h
              exact .device hfind htrue
          | file number bytes =>
              cases h
              exact .emptied hfind htrue

/-- A file that is created where nothing was found is new. -/
theorem createFile_new {path : HostPath} {place : Place} {created : Disk}
    (h : d.createFile path = .ok (place, created)) (hentry : d.hasEntry path = false) :
    d.get? place = none := by
  rw [hasEntry, resolve] at hentry
  cases createFile_creating h with
  | new hfind hfree => exact hfree
  | emptied hfind | device hfind =>
      rw [find_target_of_creation hfind] at hentry
      cases hentry

/-! ## A file that is there -/

section File

variable {d' : Disk} {path : HostPath} {place written : Place} {number : Nat} {bytes : Bytes}

theorem ne_nil_of_file (hfile : d.get? place = some (.file number bytes)) : place ≠ [] := by
  rintro rfl
  simp [get?] at hfile

/-- Creating a file empties it if it is there, and leaves every other alone. -/
theorem file_of_createFile (h : d.createFile path = .ok (written, d'))
    (hfile : d.get? place = some (.file number bytes)) :
    d'.get? place = some (.file number (if written = place then [] else bytes)) := by
  cases createFile_creating h with
  | @new directory name hfind hfree =>
      have hne : ¬ directory ++ [name] = place := by
        rintro rfl
        rw [hfree] at hfile
        cases hfile
      rw [if_neg hne]
      have hput := get?_put d (directory ++ [name]) place (.file d.filesMade []) (by simp)
      rw [if_neg (Ne.symm hne)] at hput
      exact hput.trans hfile
  | @emptied _ number' bytes' hfind hthere =>
      rw [get?_put d _ _ _ (ne_nil_of_file hthere)]
      by_cases hq : written = place
      · subst hq
        rw [hfile] at hthere
        cases hthere
        rw [if_pos rfl, if_pos rfl]
      · rw [if_neg (Ne.symm hq), if_neg hq]
        exact hfile
  | device hfind hthere =>
      have hne : ¬ written = place := by
        rintro rfl
        rw [hfile] at hthere
        cases hthere
      rw [if_neg hne]
      exact hfile

theorem file_of_setContent (hfile : d.get? place = some (.file number bytes))
    (written : Place) (content : Bytes) :
    (d.setContent written content).get? place =
      some (.file number (if written = place then content else bytes)) := by
  unfold setContent
  split
  · next number' bytes' hwritten =>
      rw [get?_put d _ _ _ (ne_nil_of_file hwritten)]
      by_cases hq : written = place
      · subst hq
        rw [hfile] at hwritten
        simp only [Option.some.injEq, DiskEntry.file.injEq] at hwritten
        rw [if_pos rfl, if_pos rfl, hwritten.1]
      · rw [if_neg (Ne.symm hq), if_neg hq]
        exact hfile
  · next hother =>
      have hne : ¬ written = place := by
        rintro rfl
        exact hother number bytes hfile
      rw [if_neg hne]
      exact hfile

theorem file_of_makeDirectory (h : d.makeDirectory path = .ok d')
    (hfile : d.get? place = some (.file number bytes)) :
    d'.get? place = some (.file number bytes) := by
  unfold makeDirectory at h
  cases hfind : d.find .entry path with
  | error e =>
      rw [hfind] at h
      cases h
  | ok f =>
      rw [hfind] at h
      cases f with
      | entry q e => cases h
      | vacant directory name =>
          have htrue := find_truthful hfind
          rw [Found.Truthful] at htrue
          rw [← Except.ok.inj h, get?_put d _ _ _ (by simp)]
          by_cases hq : place = directory ++ [name]
          · rw [hq, htrue] at hfile
            cases hfile
          · rw [if_neg hq]
            exact hfile

theorem file_of_makeChain {paths : List HostPath}
    (hfile : d.get? place = some (.file number bytes)) :
    (d.makeChain paths).2.get? place = some (.file number bytes) := by
  induction paths with
  | nil => exact hfile
  | cons path above ih =>
      unfold makeChain
      split
      · next hmade => exact file_of_makeDirectory hmade hfile
      · split
        · split
          · next habove =>
              rw [habove] at ih
              exact ih
          · next habove =>
              rw [habove] at ih
              split
              · next hmade => exact file_of_makeDirectory hmade ih
              · split <;> exact ih
        · split <;> exact hfile

theorem file_of_makeDirectories (path : HostPath)
    (hfile : d.get? place = some (.file number bytes)) :
    (d.makeDirectories path).2.get? place = some (.file number bytes) :=
  file_of_makeChain hfile

end File

end Disk

end AssetUnpack
