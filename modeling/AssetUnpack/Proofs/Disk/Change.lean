import AssetUnpack.Disk.Change
import AssetUnpack.Proofs.Disk.Lookup

/-!
# What creating files and making directories does to a place

At an open name every operation does what the entry there calls for, and
changes that one place or nothing; at a barred place every operation fails and
changes nothing. Making a directory "with all that is missing above it" never
has anything to make above: a name is open only in a directory that is there,
and the failure at a barred place is of a kind that does not send the operation
further up.
-/

namespace AssetUnpack

theorem Table.put_put {κ ν : Type} [DecidableEq κ] (t : Table κ ν) (k : κ) (v w : ν) :
    (t.put k v).put k w = t.put k w := by
  suffices h : ∀ l : List (κ × ν), putIn k w (putIn k v l) = putIn k w l by
    simp only [put, h]
  intro l
  induction l with
  | nil => simp [putIn]
  | cons e l ih =>
      obtain ⟨k', v'⟩ := e
      by_cases hk : k' = k
      · simp [putIn, hk]
      · simp [putIn, hk, ih]

theorem Table.mem_of_get? {κ ν : Type} [DecidableEq κ] {t : Table κ ν} {k : κ} {v : ν}
    (h : t.get? k = some v) : (k, v) ∈ t.entries := by
  unfold get? at h
  generalize t.entries = l at h ⊢
  induction l with
  | nil => cases h
  | cons e l ih =>
      rw [lookupIn] at h
      split at h
      · next hk =>
          rw [← hk, ← Option.some.inj h]
          exact List.mem_cons_self
      · exact List.mem_cons_of_mem _ (ih h)

namespace Disk

/-- A name that a path can ask for and that no link stands under. -/
structure Plain (d : Disk) (parent : Place) (name : String) : Prop where
  wellFormed : d.WellFormed
  names : ∀ n ∈ parent ++ [name], EntryName n
  noLink : ∀ t, d.get? (parent ++ [name]) ≠ some (.link t)

theorem Plain.name {d : Disk} {parent : Place} {name : String} (h : d.Plain parent name) :
    EntryName name := h.names name (by simp)

theorem place_ne_nil (parent : Place) (name : String) : parent ++ [name] ≠ [] :=
  List.append_ne_nil_of_right_ne_nil _ (List.cons_ne_nil _ _)

theorem LinkFreeAt.plain {d : Disk} {base : Place} (h : d.LinkFreeAt base)
    (names : List Name) (n : Name) : d.Plain (AssetPath.below ⟨names⟩ base) n.text := by
  refine ⟨h.wellFormed, fun m hm => ?_, fun t => ?_⟩
  · rw [← AssetPath.below_snoc] at hm
    rcases List.mem_append.mp hm with hm | hm
    · exact h.wellFormed.named h.directory m hm
    · obtain ⟨a, -, rfl⟩ := List.mem_map.mp hm
      exact a.entryName
  · rw [← AssetPath.below_snoc]
    exact h.linkFree _ t

section Open

variable {d : Disk} {parent : Place} {name : String}

theorem Plain.find (hp : d.Plain parent name) (ho : d.Opens parent name) (purpose : Purpose) :
    d.find purpose ⟨pathOf (parent ++ [name])⟩ =
      match d.get? (parent ++ [name]) with
      | none => .ok (.vacant parent name)
      | some e => .ok (.entry (parent ++ [name]) e) :=
  find_of_opens hp.wellFormed ho hp.name hp.noLink purpose

theorem Plain.resolve (hp : d.Plain parent name) (ho : d.Opens parent name) :
    d.resolve ⟨pathOf (parent ++ [name])⟩ =
      match d.get? (parent ++ [name]) with
      | none => .error .noEntry
      | some e => .ok (parent ++ [name], e) := by
  rw [Disk.resolve, hp.find ho]
  cases d.get? (parent ++ [name]) <;> rfl

theorem Plain.hasEntry (hp : d.Plain parent name) (ho : d.Opens parent name) :
    d.hasEntry ⟨pathOf (parent ++ [name])⟩ = (d.get? (parent ++ [name])).isSome := by
  rw [Disk.hasEntry, hp.resolve ho]
  cases d.get? (parent ++ [name]) <;> rfl

theorem Plain.hasDirectory_iff (hp : d.Plain parent name) (ho : d.Opens parent name) :
    d.hasDirectory ⟨pathOf (parent ++ [name])⟩ = true ↔
      d.get? (parent ++ [name]) = some .directory := by
  rw [Disk.hasDirectory, hp.resolve ho]
  cases d.get? (parent ++ [name]) with
  | none => simp
  | some e => cases e <;> simp [DiskEntry.isDirectory]

theorem Plain.createFile (hp : d.Plain parent name) (ho : d.Opens parent name) :
    d.createFile ⟨pathOf (parent ++ [name])⟩ =
      match d.get? (parent ++ [name]) with
      | none => .ok (parent ++ [name], d.putFile (parent ++ [name]) [])
      | some (.file number _) =>
        .ok (parent ++ [name], d.put (parent ++ [name]) (.file number []))
      | some (.device _) => .ok (parent ++ [name], d)
      | some .directory => .error .isDirectory
      | some (.link _) => .error .tooManyLinks := by
  rw [Disk.createFile, hp.find ho]
  cases d.get? (parent ++ [name]) with
  | none => rfl
  | some e => cases e <;> rfl

/-- An open name needs nothing made above it. -/
theorem Plain.makeDirectories (hp : d.Plain parent name) (ho : d.Opens parent name) :
    d.makeDirectories ⟨pathOf (parent ++ [name])⟩ =
      match d.get? (parent ++ [name]) with
      | none => (none, d.put (parent ++ [name]) .directory)
      | some .directory => (none, d)
      | some _ => (some .entryExists, d) := by
  have hkind : IoError.entryExists.kind ≠ .notFound := by decide
  rw [Disk.makeDirectories, makeChain, Disk.makeDirectory, hp.find ho]
  cases he : d.get? (parent ++ [name]) with
  | none => rfl
  | some e =>
      have hdir := hp.hasDirectory_iff ho
      simp only [if_neg hkind]
      cases e with
      | directory => rw [if_pos (hdir.mpr he)]
      | file number content => rw [if_neg (fun hc => by rw [hdir.mp hc] at he; cases he)]
      | link target => rw [if_neg (fun hc => by rw [hdir.mp hc] at he; cases he)]
      | device dev => rw [if_neg (fun hc => by rw [hdir.mp hc] at he; cases he)]

theorem Plain.hasEntry_of_barred (hp : d.Plain parent name)
    (hb : d.Barred (parent ++ [name])) :
    d.hasEntry ⟨pathOf (parent ++ [name])⟩ = false := by
  obtain ⟨err, herr, -⟩ := find_of_barred hp.wellFormed hp.names hb .target
  rw [Disk.hasEntry, Disk.resolve, herr]

theorem Plain.hasDirectory_of_barred (hp : d.Plain parent name)
    (hb : d.Barred (parent ++ [name])) :
    d.hasDirectory ⟨pathOf (parent ++ [name])⟩ = false := by
  obtain ⟨err, herr, -⟩ := find_of_barred hp.wellFormed hp.names hb .target
  rw [Disk.hasDirectory, Disk.resolve, herr]

theorem Plain.createFile_of_barred (hp : d.Plain parent name)
    (hb : d.Barred (parent ++ [name])) :
    ∃ err, d.createFile ⟨pathOf (parent ++ [name])⟩ = .error err := by
  obtain ⟨err, herr, -⟩ := find_of_barred hp.wellFormed hp.names hb .creation
  exact ⟨err, by rw [Disk.createFile, herr]⟩

theorem Plain.makeDirectories_of_barred (hp : d.Plain parent name)
    (hb : d.Barred (parent ++ [name])) :
    ∃ err, d.makeDirectories ⟨pathOf (parent ++ [name])⟩ = (some err, d) := by
  obtain ⟨err, herr, hkind⟩ := find_of_barred hp.wellFormed hp.names hb .entry
  refine ⟨err, ?_⟩
  rw [Disk.makeDirectories, makeChain, Disk.makeDirectory, herr]
  simp only [if_neg hkind, hp.hasDirectory_of_barred hb, Bool.false_eq_true, if_false]

end Open

/-! ## Keeping bytes

Creating a file and writing to it are two changes of one place, so they are one
change: what was written last. -/

/-- The disk that keeps bytes at a place: in the file there, or in a new one.
Nothing else can keep bytes. -/
def keep (d : Disk) (place : Place) (bytes : Bytes) : Disk :=
  match d.get? place with
  | none => d.putFile place bytes
  | some (.file number _) => d.put place (.file number bytes)
  | some _ => d

theorem put_put (d : Disk) (place : Place) (e e' : DiskEntry) :
    (d.put place e).put place e' = d.put place e' := by
  simp only [put, Table.put_put]

theorem setContent_of_file {d : Disk} {place : Place} {number : Nat} {content : Bytes}
    (h : d.get? place = some (.file number content)) (bytes : Bytes) :
    d.setContent place bytes = d.put place (.file number bytes) := by
  simp only [setContent, h]

/-- Of what is kept in one place, the last counts. -/
theorem setContent_keep {d : Disk} {place : Place} (hne : place ≠ []) (first last : Bytes) :
    (d.keep place first).setContent place last = d.keep place last := by
  cases he : d.get? place with
  | none =>
      have hnew := get?_putFile d place first hne
      rw [if_pos rfl] at hnew
      rw [keep, keep, he]
      simp only [setContent_of_file hnew]
      simp only [putFile, put, Table.put_put]
  | some e =>
      rw [keep, keep, he]
      cases e with
      | file number content =>
          have hnew := get?_put d place place (.file number first) hne
          rw [if_pos rfl] at hnew
          simp only [setContent_of_file hnew, put_put]
      | directory | link target | device dev => simp only [setContent, he]

/-- A file just created is empty, and it stands where the path says. -/
theorem Plain.createFile_ok {d created : Disk} {parent place : Place} {name : String}
    (hp : d.Plain parent name) (ho : d.Opens parent name)
    (h : d.createFile ⟨pathOf (parent ++ [name])⟩ = .ok (place, created)) :
    place = parent ++ [name] ∧ created = d.keep (parent ++ [name]) [] := by
  rw [hp.createFile ho] at h
  cases he : d.get? (parent ++ [name]) with
  | none =>
      rw [he] at h
      obtain ⟨rfl, rfl⟩ := Prod.mk.inj (Except.ok.inj h)
      exact ⟨rfl, by rw [keep, he]⟩
  | some e =>
      rw [he] at h
      cases e with
      | directory => cases h
      | link target => cases h
      | file number content =>
          obtain ⟨rfl, rfl⟩ := Prod.mk.inj (Except.ok.inj h)
          exact ⟨rfl, by rw [keep, he]⟩
      | device dev =>
          obtain ⟨rfl, rfl⟩ := Prod.mk.inj (Except.ok.inj h)
          exact ⟨rfl, by rw [keep, he]⟩

/-- Only where a directory stands can no file be created. -/
theorem Plain.createFile_error {d : Disk} {parent : Place} {name : String} {e : IoError}
    (hp : d.Plain parent name) (ho : d.Opens parent name)
    (h : d.createFile ⟨pathOf (parent ++ [name])⟩ = .error e) :
    d.get? (parent ++ [name]) = some .directory := by
  rw [hp.createFile ho] at h
  cases he : d.get? (parent ++ [name]) with
  | none => rw [he] at h; cases h
  | some e =>
      rw [he] at h
      cases e with
      | directory => rfl
      | link target => exact absurd he (hp.noLink target)
      | file number content => cases h
      | device dev => cases h

theorem get?_keep_of_ne {d : Disk} {place q : Place} (hne : place ≠ []) (hq : q ≠ place)
    (bytes : Bytes) : (d.keep place bytes).get? q = d.get? q := by
  unfold keep
  split
  · rw [get?_putFile _ _ _ hne, if_neg hq]
  · rw [get?_put _ _ _ _ hne, if_neg hq]
  · rfl

theorem get?_keep_of_none {d : Disk} {place : Place} (hne : place ≠ [])
    (h : d.get? place = none) (bytes : Bytes) :
    (d.keep place bytes).get? place = some (.file d.filesMade bytes) := by
  rw [keep, h]
  simp only [get?_putFile _ _ _ hne, if_true]

theorem get?_keep_of_file {d : Disk} {place : Place} (hne : place ≠ []) {number : Nat}
    {content : Bytes} (h : d.get? place = some (.file number content)) (bytes : Bytes) :
    (d.keep place bytes).get? place = some (.file number bytes) := by
  rw [keep, h]
  simp only [get?_put _ _ _ _ hne, if_true]

theorem get?_keep_self {place : Place} (hne : place ≠ []) (d : Disk) (bytes : Bytes) :
    (d.keep place bytes).get? place = d.get? place ∨
      ∃ number, (d.keep place bytes).get? place = some (.file number bytes) := by
  unfold keep
  split
  · exact Or.inr ⟨d.filesMade, by rw [get?_putFile _ _ _ hne, if_pos rfl]⟩
  · next number content h => exact Or.inr ⟨number, by rw [get?_put _ _ _ _ hne, if_pos rfl]⟩
  · exact Or.inl rfl

theorem get?_keep_ne_none {d : Disk} {place : Place} (hne : place ≠ []) (bytes : Bytes) :
    (d.keep place bytes).get? place ≠ none := by
  unfold keep
  split
  · simp [get?_putFile _ _ _ hne]
  · simp [get?_put _ _ _ _ hne]
  · next e h => simp [h]

theorem keep_of_other {d : Disk} {place : Place} {e : DiskEntry} (h : d.get? place = some e)
    (he : ∀ number content, e ≠ .file number content) (bytes : Bytes) :
    d.keep place bytes = d := by
  rw [keep, h]
  cases e with
  | file number content => exact absurd rfl (he number content)
  | directory => rfl
  | link target => rfl
  | device dev => rfl

theorem content_of_keep {d : Disk} {place : Place} (hne : place ≠ []) {bytes content : Bytes}
    {number : Nat} (h : (d.keep place bytes).get? place = some (.file number content)) :
    content = bytes := by
  cases hd : d.get? place with
  | none =>
      rw [get?_keep_of_none hne hd] at h
      simp_all
  | some e =>
      cases e with
      | file number' content' =>
          rw [get?_keep_of_file hne hd] at h
          simp_all
      | directory | link target | device dev =>
          rw [keep_of_other hd (by simp), hd] at h
          cases h

theorem get?_keep_other {d : Disk} {place : Place} (hne : place ≠ []) {bytes : Bytes}
    {e : DiskEntry} (h : (d.keep place bytes).get? place = some e)
    (he : ∀ number content, e ≠ .file number content) : d.get? place = some e := by
  cases hd : d.get? place with
  | none =>
      rw [get?_keep_of_none hne hd] at h
      exact absurd (Option.some.inj h).symm (he _ _)
  | some e' =>
      cases e' with
      | file number content =>
          rw [get?_keep_of_file hne hd] at h
          exact absurd (Option.some.inj h).symm (he _ _)
      | directory | link target | device dev =>
          rw [keep_of_other hd (by simp), hd] at h
          exact h

theorem extends_keep {d : Disk} {place : Place} (hne : place ≠ []) (bytes : Bytes) :
    d.Extends (d.keep place bytes) := by
  unfold keep
  split
  · next h =>
      refine extends_put hne fun e he => ?_
      rw [h] at he
      cases he
  · next number content h =>
      refine extends_put hne fun e he => ?_
      rw [h, Option.some.injEq] at he
      rw [← he, DiskEntry.shape, DiskEntry.shape]
  · exact Extends.refl d

theorem LinkFreeAt.keep {d : Disk} {base parent : Place} {name : String}
    (h : d.LinkFreeAt base) (ho : d.Opens parent name) (hname : EntryName name)
    (bytes : Bytes) : (d.keep (parent ++ [name]) bytes).LinkFreeAt base := by
  unfold Disk.keep
  split
  · next hnone =>
      have hput := h.put (.file d.filesMade bytes) ho.directory hname ho.shortName
        (fun e he => by rw [hnone] at he; cases he) (fun t => by simp)
      exact ⟨⟨hput.wellFormed.named, hput.wellFormed.short, hput.wellFormed.housed⟩,
        hput.directory, hput.linkFree⟩
  · next number content hfile =>
      refine h.put _ ho.directory hname ho.shortName (fun e he => ?_) (fun t => by simp)
      rw [hfile, Option.some.injEq] at he
      rw [← he, DiskEntry.shape, DiskEntry.shape]
  · exact h

/-! ## Making a directory -/

/-- The disk with a directory at a place where nothing was. -/
def house (d : Disk) (place : Place) : Disk :=
  match d.get? place with
  | none => d.put place .directory
  | some _ => d

theorem house_of_some {d : Disk} {place : Place} {e : DiskEntry} (h : d.get? place = some e) :
    d.house place = d := by
  rw [house, h]

theorem get?_house_of_ne {d : Disk} {place q : Place} (hne : place ≠ []) (hq : q ≠ place) :
    (d.house place).get? q = d.get? q := by
  unfold house
  split
  · rw [get?_put _ _ _ _ hne, if_neg hq]
  · rfl

theorem get?_house_of_none {d : Disk} {place : Place} (hne : place ≠ [])
    (h : d.get? place = none) : (d.house place).get? place = some .directory := by
  rw [house, h]
  simp only [get?_put _ _ _ _ hne, if_true]

theorem get?_house_ne_none {d : Disk} {place : Place} (hne : place ≠ []) :
    (d.house place).get? place ≠ none := by
  cases h : d.get? place with
  | none => simp [get?_house_of_none hne h]
  | some e => simp [house_of_some h, h]

theorem file_of_house {d : Disk} {place q : Place} (hne : place ≠ []) {number : Nat}
    {content : Bytes} (h : (d.house place).get? q = some (.file number content)) :
    d.get? q = some (.file number content) := by
  by_cases hq : q = place
  · subst hq
    cases hd : d.get? q with
    | none =>
        rw [get?_house_of_none hne hd] at h
        cases h
    | some e =>
        rw [house_of_some hd, hd] at h
        exact h
  · rw [get?_house_of_ne hne hq] at h
    exact h

theorem extends_house {d : Disk} {place : Place} (hne : place ≠ []) :
    d.Extends (d.house place) := by
  unfold house
  split
  · next h =>
      refine extends_put hne fun e he => ?_
      rw [h] at he
      cases he
  · exact Extends.refl d

theorem LinkFreeAt.house {d : Disk} {base parent : Place} {name : String}
    (h : d.LinkFreeAt base) (ho : d.Opens parent name) (hname : EntryName name) :
    (d.house (parent ++ [name])).LinkFreeAt base := by
  unfold Disk.house
  split
  · next hnone =>
      refine h.put _ ho.directory hname ho.shortName (fun e he => ?_) (fun t => by simp)
      rw [hnone] at he
      cases he
  · exact h

/-! ## A small disk -/

/-- A disk with a directory `out` to extract into, a file beside it, and a
directory `in` with one file. -/
def small : Disk :=
  ((((empty []).put ["out"] .directory).keep ["kept"] [7]).put ["in"] .directory).keep
    ["in", "a"] [104, 105]

theorem linkFreeAt_small : small.LinkFreeAt [] := by
  have hout : EntryName "out" := ⟨by decide, by decide, by decide, by decide, by decide⟩
  have hkept : EntryName "kept" := ⟨by decide, by decide, by decide, by decide, by decide⟩
  have hin : EntryName "in" := ⟨by decide, by decide, by decide, by decide, by decide⟩
  have ha : EntryName "a" := ⟨by decide, by decide, by decide, by decide, by decide⟩
  have h₁ : ((empty []).put ([] ++ ["out"]) .directory).LinkFreeAt [] := by
    refine (linkFreeAt_empty []).put _ rfl hout (by decide) (fun e he => ?_) (by simp)
    cases he
  have h₂ : (((empty []).put ["out"] .directory).keep ([] ++ ["kept"]) [7]).LinkFreeAt [] :=
    h₁.keep ⟨rfl, by decide, by decide⟩ hkept [7]
  have h₃ : ((((empty []).put ["out"] .directory).keep ["kept"] [7]).put ([] ++ ["in"])
      .directory).LinkFreeAt [] := by
    refine h₂.put _ rfl hin (by decide) (fun e he => ?_) (by simp)
    cases he
  have h₄ : (((((empty []).put ["out"] .directory).keep ["kept"] [7]).put ["in"]
      .directory).keep (["in"] ++ ["a"]) [104, 105]).LinkFreeAt [] :=
    h₃.keep ⟨rfl, by decide, by decide⟩ ha [104, 105]
  exact h₄

theorem linkFreeAt_small_out : small.LinkFreeAt ["out"] :=
  linkFreeAt_small.of_directory rfl

theorem linkFreeAt_small_in : small.LinkFreeAt ["in"] :=
  linkFreeAt_small.of_directory rfl

theorem small_noDevice (place : Place) (dev : Device) :
    small.get? place ≠ some (.device dev) := by
  intro h
  unfold get? at h
  split at h
  · cases h
  · have hmem := Table.mem_of_get? h
    have hentries : small.table.entries = [(["out"], .directory), (["kept"], .file 0 [7]),
        (["in"], .directory), (["in", "a"], .file 1 [104, 105])] := rfl
    simp [hentries] at hmem

/-- The name of the file in `in`. -/
def fileNamed : Name := ⟨"a", rfl⟩

end Disk

end AssetUnpack
