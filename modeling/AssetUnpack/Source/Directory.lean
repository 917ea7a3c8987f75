import AssetUnpack.Source

/-!
# Directories as sources

A directory on the disk is a source. Links to files are followed, links to directories are left out
of every listing, so that a link back to a directory above cannot make a walk go round. Listings are
in the order of the names' bytes.

Paths longer than the disk allows cannot be listed, which bounds the depth of every walk.
-/

namespace AssetUnpack

namespace Directory

/-- Whether an entry of a directory is a link that leads to a directory. -/
def isDirectoryLink (d : Disk) (place : Place) (path : HostPath) : Bool :=
  match d.get? place with
  | some (.link _) => d.hasDirectory path
  | _ => false

/-- The path of an entry of a directory. -/
def entryPath (path : HostPath) (name : String) : HostPath :=
  if path.text.toList.getLast? = some '/' then ⟨path.text ++ name⟩
  else ⟨path.text ++ "/" ++ name⟩

/-- The names in the directory that a path leads to, links to directories apart. -/
def list (d : Disk) (path : HostPath) : Except IoError (List String) × List Event :=
  match d.resolve path with
  | .error e => (if e.kind = .notFound then .ok [] else .error e, [])
  | .ok (place, .directory) =>
    let (links, names) := (d.namesIn place).partition fun name =>
      isDirectoryLink d (place ++ [name]) (entryPath path name)
    (.ok (names.mergeSort fun a b => decide (a ≤ b)),
      links.map fun name => .directoryLink (entryPath path name).text)
  | .ok _ => (.ok [], [])

theorem utf8ByteSize_push (p : HostPath) (n : Name) :
    p.text.utf8ByteSize < (p.push n).text.utf8ByteSize := by
  have hn : 0 < n.text.utf8ByteSize := by
    rcases Nat.eq_zero_or_pos n.text.utf8ByteSize with h | h
    · have := n.valid
      rw [String.utf8ByteSize_eq_zero_iff.1 h] at this
      simp [nameFault?] at this
    · exact h
  unfold HostPath.push
  dsimp only
  split <;> simp only [String.utf8ByteSize_append] <;> omega

theorem length_le_utf8ByteSize_under (base : HostPath) (p : AssetPath) :
    base.text.utf8ByteSize + p.depth ≤ (base.under p).text.utf8ByteSize := by
  obtain ⟨names⟩ := p
  simp only [HostPath.under, AssetPath.depth]
  induction names generalizing base with
  | nil => simp
  | cons n names ih =>
    have h := utf8ByteSize_push base n
    have := ih (base.push n)
    simp only [List.foldl_cons, List.length_cons]
    omega

/-- A path that is too long for the disk has no listing. -/
theorem list_deep (d : Disk) (base : HostPath) (p : AssetPath) (h : Disk.pathLimit ≤ p.depth)
    (names : List String) (hn : (list d (base.under p)).1 = .ok names) : names = [] := by
  have hlen := length_le_utf8ByteSize_under base p
  have hf : ∃ e, d.find .target (base.under p) = .error e := by
    unfold Disk.find Disk.checkPath
    split
    · exact ⟨_, rfl⟩
    · split
      · exact ⟨_, rfl⟩
      · rw [if_pos (by omega)]
        exact ⟨_, rfl⟩
  obtain ⟨e, he⟩ := hf
  simp only [list, Disk.resolve, he] at hn
  split at hn
  · exact (Except.ok.inj hn).symm
  · cases hn

end Directory

namespace Source

/-- The source of the directory that a path leads to. -/
def ofDirectory (base : HostPath) : Source where
  list d p := Directory.list d (base.under p)
  kind d p :=
    match d.resolve (base.under p) with
    | .error _ => none
    | .ok (_, e) => some (if e.isDirectory then .directory else .file)
  openAsset d _ p :=
    match d.resolve (base.under p) with
    | .error e => .error e
    | .ok (place, e) =>
      if e.isDirectory then .error (.said .other ("asset '" ++ p.text ++ "' is a directory"))
      else .ok fun d => .ofBytes (d.contentAt place)
  depthLimit := Disk.pathLimit
  list_deep d p h names hn := Directory.list_deep d base p h names hn

/-- The source of the directory at a path, which must be there. -/
def openDirectory (d : Disk) (base : HostPath) : Except ExtractError Source :=
  match d.resolve base with
  | .error e => .error (.inputOutput e)
  | .ok (_, .directory) => .ok (ofDirectory base)
  | .ok _ =>
    .error (.inputOutput (.said .invalidInput ("asset root is not a directory: " ++ base.text)))

end Source

end AssetUnpack
