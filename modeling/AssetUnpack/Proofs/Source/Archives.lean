import AssetUnpack.Proofs.Tar.Loading
import AssetUnpack.Proofs.Tar.Members
import AssetUnpack.Proofs.Zip.Indexing

/-!
# One content in two formats

A zip package is indexed and read later, entry by entry; a tar bundle is loaded into
memory at once. Where both hold the same entries nobody who asks the sources can
tell which is which (`archives_agree`), and both are the tree in memory that the
entries come to.

Nothing is asked of the entries but that their names are written the way archivers
write them. They may be no paths, lie outside the scope or above it, come twice, or
need a directory where a file is. How a package comes to its records, and a bundle
to its members, is left to the readers of the two formats; all that matters is that
these are the entries.
-/

namespace AssetUnpack

namespace Source

variable {package : Bytes} {records : List Zip.Record} {ms : List Tar.Member}
  {entries : List Entry} {scope : String} {root : AssetPath}

/-- The same entries in a package and in a bundle give the same source, which is that
of the tree in memory that they come to. -/
theorem archives_agree (hscope : AssetPath.parse scope = .ok root)
    (hnamed : ∀ e ∈ entries, e.WellNamed)
    (hrecords : List.Forall₂ (Zip.Carries package) records entries)
    (hmembers : List.Forall₂ Tar.Carries ms entries) :
    ∃ p, Zip.Package.ofRecords package root records = .ok p ∧
      (Zip.directory? package = some records →
        (openZip package (fun _ => package) scope).1 = .ok (.ofZip p fun _ => package)) ∧
      (∀ bundle gzipped,
        Tar.members {} (.start (Tar.inputOf bundle gzipped)) = ms.map .member →
        (openTar bundle gzipped scope).1 =
          .ok (.ofMemory (MemoryTree.treeOf root entries) true)) ∧
      Agree (.ofZip p fun _ => package) (.ofMemory (MemoryTree.treeOf root entries) true) := by
  obtain ⟨p, hp, halike⟩ := Zip.ofRecords_alike root hrecords hnamed
  refine ⟨p, hp, fun hdirectory => Zip.openZip_of_records hscope hdirectory hp,
    fun bundle gzipped hbundle => ?_, Zip.Package.agree_of_alike halike⟩
  exact Tar.openTar_of_load hscope (Tar.load_of_entries root hbundle hmembers hnamed)

end Source

/-! ## A small archive in both formats -/

/-- A directory `a`, a file in it, and a file of the directory's name. -/
def smallEntries : List Entry :=
  [⟨"a/", .directory, []⟩, ⟨"a/b", .file, [7]⟩, ⟨"a", .file, []⟩]

theorem smallEntries_wellNamed : ∀ e ∈ smallEntries, e.WellNamed := by
  intro e he
  rcases List.mem_cons.mp he with rfl | he
  · exact ⟨by decide, by decide, by decide⟩
  rcases List.mem_cons.mp he with rfl | he
  · exact ⟨by decide, by decide, by decide⟩
  obtain rfl := List.mem_singleton.mp he
  exact ⟨by decide, by decide, by decide⟩

namespace Zip

/-- A stored entry with the header in front of it. -/
def storedEntry (name content checksum : Bytes) : Bytes :=
  headerSignature ++ [10, 0] ++ List.replicate 8 0 ++ checksum ++
    [content.length.toUInt8, 0, 0, 0, content.length.toUInt8, 0, 0, 0] ++
    [name.length.toUInt8, 0, 0, 0] ++ name ++ content

/-- The record of a stored entry whose header starts at a place. -/
def storedRecord (name content checksum : Bytes) (place : UInt8) : Bytes :=
  recordSignature ++ [10, 0, 10, 0] ++ List.replicate 8 0 ++ checksum ++
    [content.length.toUInt8, 0, 0, 0, content.length.toUInt8, 0, 0, 0] ++
    [name.length.toUInt8, 0] ++ List.replicate 12 0 ++ [place, 0, 0, 0] ++ name

/-- A package of the small entries. -/
def small : Bytes :=
  storedEntry [0x61, 0x2F] [] [0, 0, 0, 0] ++
    storedEntry [0x61, 0x2F, 0x62] [7] [0x2E, 0x7A, 0x66, 0x4C] ++
    storedEntry [0x61] [] [0, 0, 0, 0] ++
    storedRecord [0x61, 0x2F] [] [0, 0, 0, 0] 0 ++
    storedRecord [0x61, 0x2F, 0x62] [7] [0x2E, 0x7A, 0x66, 0x4C] 32 ++
    storedRecord [0x61] [] [0, 0, 0, 0] 66 ++
    endSignature ++ [0, 0, 0, 0, 3, 0, 3, 0, 144, 0, 0, 0, 97, 0, 0, 0, 0, 0]

def smallRecords : List Record :=
  [⟨"a/", false, 0, 0, 0, 0, 0⟩, ⟨"a/b", false, 0, 0x4C667A2E, 1, 1, 32⟩,
    ⟨"a", false, 0, 0, 0, 0, 66⟩]

theorem directory?_small : directory? small = some smallRecords := by decide +kernel

theorem smallRecords_carry : List.Forall₂ (Carries small) smallRecords smallEntries := by
  have hinner : Holds small (Record.span ⟨"a/b", false, 0, 0x4C667A2E, 1, 1, 32⟩ 65) [7] :=
    ⟨rfl, by decide +kernel, rfl, by decide +kernel⟩
  have houter : Holds small (Record.span ⟨"a", false, 0, 0, 0, 0, 66⟩ 97) [] :=
    ⟨rfl, by decide +kernel, rfl, by decide +kernel⟩
  refine .cons ⟨rfl, rfl, 32, by decide +kernel, nofun⟩ (.cons ⟨rfl, rfl, 65, by decide +kernel,
    fun _ => hinner⟩ (.cons ⟨rfl, rfl, 97, by decide +kernel, fun _ => houter⟩ .nil))

end Zip

namespace Tar

/-- A header in the oldest layout, with a name, a size below eight, a checksum and a
type flag. -/
def oldHeader (name : Bytes) (size : UInt8) (checksum : Bytes) (flag : UInt8) : Bytes :=
  name ++ List.replicate (124 - name.length) 0 ++ List.replicate 10 0x30 ++ [0x30 + size, 0] ++
    List.replicate 12 0 ++ checksum ++ [flag] ++ List.replicate 355 0

def directoryHeader : Bytes :=
  oldHeader [0x61, 0x2F] 0 [0x30, 0x30, 0x31, 0x37, 0x32, 0x35, 0, 0x20] 0x35

def innerHeader : Bytes :=
  oldHeader [0x61, 0x2F, 0x62] 1 [0x30, 0x30, 0x32, 0x30, 0x36, 0x33, 0, 0x20] 0x30

def outerHeader : Bytes :=
  oldHeader [0x61] 0 [0x30, 0x30, 0x31, 0x36, 0x34, 0x31, 0, 0x20] 0x30

/-- A bundle of the small entries. -/
def small : Bytes :=
  directoryHeader ++ innerHeader ++ (7 :: List.replicate 511 0) ++ outerHeader

def smallMembers : List Member :=
  [⟨[0x61, 0x2F], 0x35, [], none⟩, ⟨[0x61, 0x2F, 0x62], 0x30, [7], none⟩, ⟨[0x61], 0x30, [], none⟩]

theorem members_small :
    members {} (.start (inputOf small false)) = smallMembers.map .member := by
  have hheader₁ : directoryHeader = (small.drop 0).take blockSize := by decide +kernel
  have hread₁ : readHeader directoryHeader {} 0 = .ok 0 := by decide +kernel
  have hheader₂ : innerHeader = ((small.drop 512).drop 0).take blockSize := by decide +kernel
  have hread₂ : readHeader innerHeader {} 512 = .ok 1 := by decide +kernel
  have hheader₃ : outerHeader = (((small.drop 512).drop 512).drop 512).take blockSize := by
    decide +kernel
  have hread₃ : readHeader outerHeader {} 1536 = .ok 0 := by decide +kernel
  have hrest : ((small.drop 512).drop 512).drop 1024 = [] := by decide +kernel
  have hend : members {} ⟨.ofBytes (((small.drop 512).drop 512).drop 1024), 0, 2048⟩ = [] := by
    rw [hrest]
    exact members_of_end rfl (by decide) rfl
  refine (members_of_bytes hheader₁ (by decide +kernel) (by decide +kernel) hread₁
    (by decide +kernel) (by decide +kernel)).trans (congrArg₂ List.cons (by decide +kernel) ?_)
  refine (members_of_bytes hheader₂ (by decide +kernel) (by decide +kernel) hread₂
    (by decide +kernel) (by decide +kernel)).trans (congrArg₂ List.cons (by decide +kernel) ?_)
  exact (members_of_bytes hheader₃ (by decide +kernel) (by decide +kernel) hread₃
    (by decide +kernel) (by decide +kernel)).trans (congrArg₂ List.cons (by decide +kernel) hend)

theorem smallMembers_carry : List.Forall₂ Carries smallMembers smallEntries :=
  .cons ⟨by decide +kernel, by decide, nofun⟩ (.cons ⟨by decide +kernel, by decide,
    fun _ => ⟨rfl, rfl⟩⟩ (.cons ⟨by decide +kernel, by decide, fun _ => ⟨rfl, rfl⟩⟩ .nil))

end Tar

theorem Source.archives_agree_small :
    ∃ p, (openZip Zip.small (fun _ => Zip.small) "a").1 = .ok (.ofZip p fun _ => Zip.small) ∧
      (openTar Tar.small false "a").1 =
        .ok (.ofMemory (MemoryTree.treeOf ⟨[⟨"a", rfl⟩]⟩ smallEntries) true) ∧
      Agree (.ofZip p fun _ => Zip.small)
        (.ofMemory (MemoryTree.treeOf ⟨[⟨"a", rfl⟩]⟩ smallEntries) true) := by
  have hscope : AssetPath.parse "a" = .ok ⟨[⟨"a", rfl⟩]⟩ := by rfl
  obtain ⟨p, -, hzip, htar, hagree⟩ := archives_agree hscope smallEntries_wellNamed
    Zip.smallRecords_carry Tar.smallMembers_carry
  exact ⟨p, hzip Zip.directory?_small, htar Tar.small false Tar.members_small, hagree⟩

end AssetUnpack
