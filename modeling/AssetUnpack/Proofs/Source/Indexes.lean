import Mathlib.Data.List.Nodup
import AssetUnpack.Proofs.AssetPath.Texts
import AssetUnpack.Proofs.NodeTree.InPlace
import AssetUnpack.Proofs.Source.Archives
import AssetUnpack.Proofs.Source.Walks

/-!
# Indexes are trees, and their sources answer like trees

An index keeps who is below whom twice, in the paths of its nodes and in the names
that directories list. The two never come apart (`IsTree`), whatever is inserted
and whatever insertions fail, and whatever an archive holds.

A source that answers from such an index is `Coherent`: its list, its kinds and what
it finds when it opens something are three views of one tree. Only for a package is
finding an asset not all: one that is found is still refused while another is read,
or if nobody here can unpack it.
-/

namespace AssetUnpack

namespace NodeTree

variable {α : Type} {t : NodeTree α}

/-- An index that is a tree. -/
structure IsTree (t : NodeTree α) : Prop where
  root : ∃ names, t.get? .root = some (.directory names)
  /-- A node but the root stands in a directory that lists its name once. -/
  parent : ∀ p, p ≠ .root → t.get? p ≠ none → ∃ above name names, p.parent? = some above ∧
    p.fileName? = some name ∧ t.get? above = some (.directory names) ∧ names.count name = 1
  /-- What a directory lists is a name, and there is a node of that name in it. -/
  listed : ∀ p names, t.get? p = some (.directory names) → ∀ name ∈ names,
    nameFault? name.text = none ∧ ∃ q, p.join name.text = .ok q ∧ t.get? q ≠ none
  leaf : ∀ p value, t.get? p = some (.leaf value) → t.children p = []

theorem Consistent.isTree (h : t.Consistent) : t.IsTree := by
  refine ⟨h.root, fun p hroot hp => ?_, fun p names hp n hn => ?_, fun p value => children_of_leaf⟩
  · obtain ⟨ps⟩ := p
    rcases List.eq_nil_or_concat' ps with rfl | ⟨above, name, rfl⟩
    · exact absurd rfl hroot
    have hmem : name ∈ t.children ⟨above⟩ := (h.listed ⟨above⟩ name).mpr hp
    refine ⟨⟨above⟩, name, t.children ⟨above⟩, ?_, ?_, directory_of_mem hmem, ?_⟩
    · simp [AssetPath.parent?]
    · simp [AssetPath.fileName?]
    · exact List.count_eq_one_of_mem (h.nodup _) hmem
  · refine ⟨n.valid, p.child n, AssetPath.join_eq_ok.mpr ⟨n, rfl, rfl⟩, ?_⟩
    rw [← h.listed, children_of_directory hp]
    exact hn

end NodeTree

namespace Source

/-- What opening a path gives where nothing is. -/
def notFound (p : AssetPath) : IoError := .said .notFound ("asset '" ++ p.text ++ "' not found")

/-- What opening a path gives where a directory is. -/
def isDirectory (p : AssetPath) : IoError :=
  .said .other ("asset '" ++ p.text ++ "' is a directory")

/-- Whether opening a path finds an asset, be it that it cannot be read at present, or
not here. -/
def Finds (s : Source) (disk : Disk) (busy : Bool) (p : AssetPath) : Prop :=
  s.openAsset disk busy p ≠ .error (notFound p) ∧ s.openAsset disk busy p ≠ .error (isDirectory p)

/-- A source whose answers fit together. `barred` are the assets that are found and
still not opened. -/
structure Coherent (s : Source) (barred : Bool → AssetPath → Prop) : Prop where
  list : ∀ disk p, ∃ names, (s.list disk p).1 = .ok names ∧
    (∀ name, name ∈ names ↔ ∃ q, p.join name = .ok q ∧ s.kind disk q ≠ none) ∧
    (names ≠ [] → s.kind disk p = some .directory)
  finds : ∀ disk busy p, s.Finds disk busy p ↔ s.kind disk p = some .file
  opens : ∀ disk busy p, (∃ content, s.openAsset disk busy p = .ok content) ↔
    s.kind disk p = some .file ∧ ¬ barred busy p

/-- A source that answers from an index. What it makes of a leaf is its own matter. -/
structure Reads {α : Type} (s : Source) (t : NodeTree α)
    (give : Disk → Bool → AssetPath → α → Except IoError Content) : Prop where
  list : ∀ disk p, s.list disk p = (.ok ((t.children p).map (·.text)), [])
  kind : ∀ disk p, s.kind disk p = t.kind? p
  openAsset : ∀ disk busy p, s.openAsset disk busy p = t.leafAt p >>= give disk busy p

section Reads

variable {α : Type} {s : Source} {t : NodeTree α}
  {give : Disk → Bool → AssetPath → α → Except IoError Content} {barred : Bool → AssetPath → Prop}

theorem Reads.tidy (hs : s.Reads t give) (ht : t.Consistent) : s.Tidy :=
  fun disk p => ⟨t.children p, hs.list disk p, ht.nodup p⟩

theorem Reads.coherent (hs : s.Reads t give) (ht : t.Consistent)
    (hfound : ∀ disk busy p value, give disk busy p value ≠ .error (notFound p) ∧
      give disk busy p value ≠ .error (isDirectory p))
    (hbarred : ∀ disk busy p value, t.get? p = some (.leaf value) →
      ((∃ content, give disk busy p value = .ok content) ↔ ¬ barred busy p)) :
    s.Coherent barred := by
  refine ⟨fun disk p => ⟨(t.children p).map (·.text), congrArg Prod.fst (hs.list disk p), ?_, ?_⟩,
    fun disk busy p => ?_, fun disk busy p => ?_⟩
  · intro name
    rw [List.mem_map]
    constructor
    · rintro ⟨n, hn, rfl⟩
      refine ⟨p.child n, AssetPath.join_eq_ok.mpr ⟨n, rfl, rfl⟩, ?_⟩
      rw [hs.kind, NodeTree.kind?_ne_none, ← ht.listed]
      exact hn
    · rintro ⟨q, hjoin, hq⟩
      obtain ⟨n, rfl, rfl⟩ := AssetPath.join_eq_ok.mp hjoin
      rw [hs.kind, NodeTree.kind?_ne_none, ← ht.listed] at hq
      exact ⟨n, hq, rfl⟩
  · intro hne
    obtain ⟨name, hname⟩ := List.exists_mem_of_ne_nil _ hne
    obtain ⟨n, hn, -⟩ := List.mem_map.mp hname
    rw [hs.kind, NodeTree.kind?_eq_directory]
    exact ⟨_, NodeTree.directory_of_mem hn⟩
  · rw [Finds, hs.kind, NodeTree.kind?_eq_file, hs.openAsset, NodeTree.leafAt]
    cases t.get? p with
    | none => exact ⟨fun h => absurd rfl h.1, nofun⟩
    | some node =>
        cases node with
        | leaf value => exact ⟨fun _ => ⟨value, rfl⟩, fun _ => hfound disk busy p value⟩
        | directory names => exact ⟨fun h => absurd rfl h.2, nofun⟩
  · rw [hs.kind, NodeTree.kind?_eq_file, hs.openAsset, NodeTree.leafAt]
    cases hp : t.get? p with
    | none => exact ⟨nofun, nofun⟩
    | some node =>
        cases node with
        | leaf value =>
            exact (hbarred disk busy p value hp).trans (iff_and_self.mpr fun _ => ⟨value, rfl⟩)
        | directory names => exact ⟨nofun, nofun⟩

end Reads

/-! ## Trees in memory and packages -/

theorem reads_ofMemory (t : MemoryTree) :
    (ofMemory t true).Reads t fun _ _ _ content => .ok fun _ => .ofBytes content := by
  refine ⟨fun _ _ => rfl, fun _ _ => rfl, fun _ _ p => ?_⟩
  show (t.leafAt p).map _ = _
  cases t.leafAt p <;> rfl

end Source

namespace Zip

/-- What a package makes of the span that a path leads to. -/
def Span.give (bytes : Disk → Bytes) (busy : Bool) (path : AssetPath) (span : Span) :
    Except IoError Content :=
  if busy then .error busyError
  else
    match Packing.ofCode? span.methodCode with
    | none => .error (unsupportedError path span.methodCode)
    | some packing => .ok fun d => span.supplies packing (bytes d)

/-- What a package refuses to open although it is there: anything while something is
read, and what nobody here can unpack. -/
def Package.Barred (p : Package) (busy : Bool) (path : AssetPath) : Prop :=
  busy = true ∨ ∃ span, p.tree.get? path = some (.leaf span) ∧
    Packing.ofCode? span.methodCode = none

theorem reads_ofZip (p : Package) (bytes : Disk → Bytes) :
    (Source.ofZip p bytes).Reads p.tree fun _ => Span.give bytes := by
  refine ⟨fun _ _ => rfl, fun _ _ => rfl, fun _ busy path => ?_⟩
  unfold Source.ofZip Package.find
  dsimp only
  cases p.tree.leafAt path with
  | error e => rfl
  | ok span =>
      dsimp only [Bind.bind, Except.bind]
      unfold Span.give
      cases busy with
      | true => rfl
      | false => cases Packing.ofCode? span.methodCode <;> rfl

theorem busyError_ne (path : AssetPath) :
    busyError ≠ Source.notFound path ∧ busyError ≠ Source.isDirectory path := by
  refine ⟨nofun, fun h => ?_⟩
  have htexts := congrArg (fun e : IoError => e.message.toList.take 2) h
  simp [busyError, Source.isDirectory, IoError.message, String.toList_append] at htexts

theorem Span.give_found (bytes : Disk → Bytes) (busy : Bool) (path : AssetPath) (span : Span) :
    span.give bytes busy path ≠ .error (Source.notFound path) ∧
      span.give bytes busy path ≠ .error (Source.isDirectory path) := by
  unfold give
  split
  · exact ⟨fun h => (busyError_ne path).1 (Except.error.inj h),
      fun h => (busyError_ne path).2 (Except.error.inj h)⟩
  split
  · exact ⟨nofun, nofun⟩
  · exact ⟨nofun, nofun⟩

theorem Span.give_opens {p : Package} {path : AssetPath} {span : Span}
    (h : p.tree.get? path = some (.leaf span)) (bytes : Disk → Bytes) (busy : Bool) :
    (∃ content, span.give bytes busy path = .ok content) ↔ ¬ p.Barred busy path := by
  unfold give Package.Barred
  rw [h]
  cases busy with
  | true => simp
  | false => cases hcode : Packing.ofCode? span.methodCode <;> simp [hcode]

end Zip

/-! ## Every index -/

/-- An index that is a tree, and a source that shows it. -/
structure NodeTree.ShownBy {α : Type} (t : NodeTree α) (s : Source)
    (barred : Bool → AssetPath → Prop) : Prop where
  isTree : t.IsTree
  coherent : s.Coherent barred
  walkedOnce : s.WalkedOnce

theorem NodeTree.Consistent.shownBy_ofMemory {t : MemoryTree} (h : t.Consistent) :
    t.ShownBy (.ofMemory t true) fun _ _ => False := by
  have hreads := Source.reads_ofMemory t
  refine ⟨h.isTree, hreads.coherent h (fun _ _ _ _ => ⟨nofun, nofun⟩) fun _ _ _ _ _ => ?_,
    (hreads.tidy h).walkedOnce⟩
  exact ⟨fun _ => not_false, fun _ => ⟨_, rfl⟩⟩

/-- Whatever calls are made on a tree in memory, and whatever a bundle or a package
holds, the index that comes of it is a tree, and its source shows that tree. -/
theorem Source.indexes_shown :
    (∀ calls, (MemoryTree.after calls).ShownBy (.ofMemory (MemoryTree.after calls) true)
      fun _ _ => False) ∧
    (∀ input scope t, (Tar.load input scope).1 = .ok t →
      t.ShownBy (.ofMemory t true) fun _ _ => False) ∧
    (∀ bytes scope p, (Zip.Package.open bytes scope).1 = .ok p → ∀ later,
      p.tree.ShownBy (.ofZip p later) p.Barred) := by
  refine ⟨fun calls => (MemoryTree.after_built calls).consistent.shownBy_ofMemory,
    fun input scope t hload => (Tar.load_built hload).consistent.shownBy_ofMemory,
    fun bytes scope p hopen later => ?_⟩
  have ht := Zip.open_consistent hopen
  have hreads := Zip.reads_ofZip p later
  exact ⟨ht.isTree,
    hreads.coherent ht (fun _ busy path span => span.give_found later busy path)
      (fun _ busy _ _ hspan => Zip.Span.give_opens hspan later busy),
    (hreads.tidy ht).walkedOnce⟩

theorem Source.indexes_shown_small :
    (MemoryTree.after smallCalls).ShownBy (.ofMemory (MemoryTree.after smallCalls) true)
        (fun _ _ => False) ∧
      (∃ t, (Tar.load (Tar.inputOf Tar.small false) .root).1 = .ok t ∧
        t.ShownBy (.ofMemory t true) fun _ _ => False) ∧
      ∃ p, (Zip.Package.open Zip.small .root).1 = .ok p ∧
        p.tree.ShownBy (.ofZip p fun _ => Zip.small) p.Barred := by
  obtain ⟨hmemory, hbundle, hpackage⟩ := indexes_shown
  have hload := Tar.load_of_entries .root Tar.members_small Tar.smallMembers_carry
    smallEntries_wellNamed
  obtain ⟨p, hrecords, -⟩ := Zip.ofRecords_alike .root Zip.smallRecords_carry
    smallEntries_wellNamed
  have hopen := Zip.open_of_records Zip.directory?_small hrecords
  exact ⟨hmemory smallCalls, ⟨_, hload, hbundle _ _ _ hload⟩, p, hopen, hpackage _ _ p hopen _⟩

end AssetUnpack
