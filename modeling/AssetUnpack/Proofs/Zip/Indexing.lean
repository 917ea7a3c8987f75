import Mathlib.Data.List.Forall2
import AssetUnpack.Proofs.NodeTree.Alike
import AssetUnpack.Proofs.Source.Entries
import AssetUnpack.Proofs.Stream.Copy
import AssetUnpack.Zip.Package

/-!
# What indexing a package comes to

The index of a package keeps spans where a tree in memory has contents. A span
`Holds` its content if it is stored and its bytes, their number and their checksum
are right; opening it then gives the content and no fault behind it. If the records
of a package are entries with ordinary names and hold what these hold, the index is
the tree of the entries with spans in place of contents (`ofRecords_alike`).

Indexing and loading a bundle decide differently what is a directory and what
becomes of an entry at the scope itself. Neither shows: a name that ends in a
backslash is no path, and a directory is at the root already.

Whatever a package holds, its index hangs together (`open_consistent`).
-/

namespace AssetUnpack.Zip

/-- A span that is stored in a package and verifies as a content. -/
structure Holds (bytes : Bytes) (span : Span) (content : Bytes) : Prop where
  stored : span.methodCode = 0
  fetched : fetch bytes span.start span.compressedSize = content
  size : span.size = content.length
  checksum : span.crc32 = (Checksum.crc32 content).toNat

/-- The span of a record whose data starts at an offset. -/
def Record.span (r : Record) (start : Nat) : Span :=
  ⟨start, r.compressedSize, r.size, r.crc32, r.methodCode⟩

/-- A record that is an entry. -/
structure Carries (bytes : Bytes) (r : Record) (e : Entry) : Prop where
  name : r.name = e.name
  plain : r.encrypted = false
  data : ∃ start, dataStart? bytes r = some start ∧
    (e.kind = .file → Holds bytes (r.span start) e.content)

/-- The package that records come to, if the data of each can be found. -/
def Package.ofRecords (bytes : Bytes) (scope : AssetPath) (records : List Record) :
    Except ArchiveFault Package :=
  (indexEntries bytes scope 0 ⟨.empty, []⟩ records).1.map fun i => ⟨i.tree⟩

theorem open_of_records {bytes : Bytes} {root : AssetPath} {records : List Record}
    (hrecords : directory? bytes = some records) {p : Package}
    (h : Package.ofRecords bytes root records = .ok p) : (Package.open bytes root).1 = .ok p := by
  unfold Package.ofRecords at h
  unfold Package.open
  rw [hrecords]
  dsimp only
  generalize indexEntries bytes root 0 ⟨.empty, []⟩ records = indexed at h ⊢
  obtain ⟨result, events⟩ := indexed
  cases result with
  | error e => cases h
  | ok i =>
      obtain rfl := Except.ok.inj h
      rfl

theorem openZip_of_records {bytes : Bytes} {later : Disk → Bytes} {scope : String}
    {root : AssetPath} (hscope : AssetPath.parse scope = .ok root) {records : List Record}
    (hrecords : directory? bytes = some records) {p : Package}
    (h : Package.ofRecords bytes root records = .ok p) :
    (Source.openZip bytes later scope).1 = .ok (.ofZip p later) := by
  have hopen := open_of_records hrecords h
  unfold Source.openZip
  rw [hscope]
  dsimp only
  generalize Package.open bytes root = opened at hopen ⊢
  obtain ⟨result, events⟩ := opened
  obtain rfl : result = .ok p := hopen
  rfl

/-! ## Opening what is stored -/

/-- A span that holds a content gives it to the last byte, and nothing else. -/
theorem Holds.supplies {bytes : Bytes} {span : Span} {content : Bytes}
    (h : Holds bytes span content) :
    span.supplies .stored bytes = Reader.ofBytes content := by
  have hverdict : (span.account.count content).verdict = none := by
    have hdelivered : (span.account.count content).delivered = span.size := by
      rw [h.size]
      exact Nat.zero_add _
    have hsum : (Checksum.finish (span.account.count content).running).toNat = span.crc32 :=
      h.checksum.symm
    exact (if_neg (not_not_intro hdelivered)).trans (if_neg (not_not_intro hsum))
  unfold Span.supplies
  dsimp only
  rw [h.fetched, Reader.drain_ofBytes, hverdict]
  rfl

theorem Holds.packing {bytes : Bytes} {span : Span} {content : Bytes}
    (h : Holds bytes span content) : Packing.ofCode? span.methodCode = some .stored := by
  rw [h.stored]
  rfl

/-- Where a package is a tree of contents with spans in their place, it is the same
source as the tree. -/
theorem Package.agree_of_alike {p : Package} {bytes : Bytes} {t : MemoryTree}
    (h : p.tree.Alike (Holds bytes) t) :
    Source.Agree (.ofZip p fun _ => bytes) (.ofMemory t true) := by
  refine ⟨fun disk path => ?_, fun disk path => h.kind? path, fun disk path => ?_⟩
  · unfold Source.ofZip Source.ofMemory
    dsimp only
    rw [h.children]
  · unfold Source.ofZip Source.ofMemory Package.find
    dsimp only
    rcases h.leafAt path with ⟨span, content, hspan, hcontent, hholds⟩ | ⟨e, hspan, hcontent⟩
    · rw [hspan, hcontent]
      simp only [Bool.false_eq_true, if_false, hholds.packing, hholds.supplies]
      rfl
    · rw [hspan, hcontent]
      rfl

/-! ## Indexing -/

/-- A file whose name spells a path does not look like a directory. -/
theorem isDirectoryName_eq {e : Entry} (hnamed : e.WellNamed) {full : AssetPath}
    (hparse : AssetPath.parse e.name = .ok full) :
    isDirectoryName e.name = true ↔ e.kind = .directory := by
  rw [hnamed.directory]
  unfold isDirectoryName
  split
  · next hlast => simp [hlast]
  · next hlast =>
      exact absurd (List.mem_of_getLast? hlast) (AssetPath.no_backslash_of_parse hparse)
  · next hslash _ => simpa using hslash

section Indexing

variable {bytes : Bytes} {scope : AssetPath} {tree : NodeTree Span} {t : MemoryTree} {e : Entry}

theorem addEntry_of_path {name : String} {full : AssetPath} (h : AssetPath.parse name = .ok full)
    (tree : NodeTree Span) (scope : AssetPath) (span : Span) :
    addEntry tree scope name span =
      match full.stripBase? scope with
      | none => .ok tree
      | some path =>
        if isDirectoryName name then tree.ensureDirectory path
        else if path.isRoot then .error ⟨name, .shadowsRoot⟩
        else tree.insertLeaf path span := by
  rw [addEntry, h]
  rfl

/-- An entry is added to alike indexes alike. -/
theorem addEntry_alike (scope : AssetPath) (h : tree.Alike (Holds bytes) t) (ht : t.Consistent)
    (hnamed : e.WellNamed) {span : Span}
    (hholds : e.kind = .file → Holds bytes span e.content) :
    (tree.settle (addEntry tree scope e.name span)).Alike (Holds bytes) (t.addEntry scope e) := by
  unfold MemoryTree.addEntry
  cases hparse : AssetPath.parse e.name with
  | error fault =>
      rw [addEntry, hparse]
      exact h
  | ok full =>
      have hdirectory := isDirectoryName_eq hnamed hparse
      rw [addEntry_of_path hparse]
      dsimp only
      cases full.stripBase? scope with
      | none => exact h
      | some path =>
          dsimp only
          unfold MemoryTree.insertEntry
          cases hkind : e.kind with
          | directory =>
              rw [if_pos (hdirectory.mpr hkind)]
              dsimp only
              rw [MemoryTree.insertDirectory_text]
              have hend := h.ensureDirectory path
              by_cases hroot : path.isRoot = true
              · obtain rfl : path = .root := by
                  obtain ⟨names⟩ := path
                  exact congrArg _ (List.isEmpty_iff.mp hroot)
                rw [ht.ensureDirectory_root] at hend
                rw [if_pos hroot]
                exact hend.settle h
              · rw [if_neg hroot]
                exact hend.settle h
          | file =>
              rw [if_neg (fun hd => by rw [hdirectory.mp hd] at hkind; cases hkind)]
              dsimp only
              rw [MemoryTree.insertFile_text]
              by_cases hroot : path.isRoot = true
              · rw [if_pos hroot, if_pos hroot]
                exact h
              · rw [if_neg hroot, if_neg hroot]
                exact (h.insertLeaf path (hholds hkind)).settle h

theorem tree_indexEntry (scope : AssetPath) (i : Indexing) {r : Record}
    (hplain : r.encrypted = false) (start : Nat) :
    (indexEntry scope i r start).tree =
      i.tree.settle (addEntry i.tree scope r.name (r.span start)) := by
  unfold indexEntry Record.span
  rw [hplain]
  dsimp only
  generalize addEntry i.tree scope r.name _ = result
  cases result <;> rfl

theorem indexEntries_alike (scope : AssetPath) (number : Nat) (i : Indexing) {records : List Record}
    {entries : List Entry} (hcarries : List.Forall₂ (Carries bytes) records entries)
    (hnamed : ∀ e ∈ entries, e.WellNamed) (h : i.tree.Alike (Holds bytes) t) (ht : t.Built) :
    ∃ i', (indexEntries bytes scope number i records).1 = .ok i' ∧
      i'.tree.Alike (Holds bytes) (entries.foldl (MemoryTree.addEntry scope) t) := by
  induction hcarries generalizing number i t with
  | nil => exact ⟨i, rfl, h⟩
  | @cons r e records entries hr hrest ih =>
      obtain ⟨start, hstart, hholds⟩ := hr.data
      have hnext := addEntry_alike scope h ht.consistent (hnamed e List.mem_cons_self) hholds
      rw [← hr.name, ← tree_indexEntry scope i hr.plain start] at hnext
      rw [indexEntries, hstart]
      exact ih (number + 1) _ (fun e' he' => hnamed e' (List.mem_cons_of_mem _ he')) hnext
        (ht.addEntry scope e)

end Indexing

/-- A package of ordinary entries can be indexed, and its index is the tree that they
come to with spans in place of contents. -/
theorem ofRecords_alike {bytes : Bytes} {records : List Record} {entries : List Entry}
    (scope : AssetPath) (hcarries : List.Forall₂ (Carries bytes) records entries)
    (hnamed : ∀ e ∈ entries, e.WellNamed) :
    ∃ p, Package.ofRecords bytes scope records = .ok p ∧
      p.tree.Alike (Holds bytes) (MemoryTree.treeOf scope entries) := by
  obtain ⟨i, hindexed, halike⟩ := indexEntries_alike scope 0 ⟨.empty, []⟩ hcarries hnamed
    NodeTree.alike_empty .empty
  refine ⟨⟨i.tree⟩, ?_, halike⟩
  rw [Package.ofRecords, hindexed]
  rfl

/-! ## Every package -/

section Every

variable {bytes : Bytes} {scope : AssetPath} {tree tree' : NodeTree Span}

theorem addEntry_consistent (h : tree.Consistent) {name : String} {span : Span}
    (hok : addEntry tree scope name span = .ok tree') : tree'.Consistent := by
  cases hparse : AssetPath.parse name with
  | error fault =>
      rw [addEntry, hparse] at hok
      cases hok
  | ok full =>
      rw [addEntry_of_path hparse] at hok
      split at hok
      · obtain rfl := Except.ok.inj hok
        exact h
      split at hok
      · exact h.ensureDirectory hok
      split at hok
      · cases hok
      · exact h.insertLeaf hok

theorem indexEntry_consistent (scope : AssetPath) {i : Indexing} (h : i.tree.Consistent)
    (r : Record) (start : Nat) : (indexEntry scope i r start).tree.Consistent := by
  cases hplain : r.encrypted with
  | true =>
      rw [indexEntry, if_pos hplain]
      exact h
  | false =>
      rw [tree_indexEntry scope i hplain]
      cases hadd : addEntry i.tree scope r.name (r.span start) with
      | error fault => exact h
      | ok tree' => exact addEntry_consistent h hadd

theorem indexEntries_consistent {number : Nat} {i i' : Indexing} {records : List Record}
    (h : i.tree.Consistent) (hok : (indexEntries bytes scope number i records).1 = .ok i') :
    i'.tree.Consistent := by
  induction records generalizing number i with
  | nil =>
      obtain rfl := Except.ok.inj hok
      exact h
  | cons r records ih =>
      rw [indexEntries] at hok
      split at hok
      · cases hok
      · exact ih (indexEntry_consistent scope h r _) hok

/-- Whatever a package holds, its index hangs together. -/
theorem open_consistent {p : Package} (hok : (Package.open bytes scope).1 = .ok p) :
    p.tree.Consistent := by
  unfold Package.open at hok
  split at hok
  · cases hok
  split at hok
  · cases hok
  · next records _ _ i events hindexed =>
      obtain rfl := Except.ok.inj hok
      have hstart : (⟨.empty, []⟩ : Indexing).tree.Consistent := NodeTree.consistent_empty
      exact indexEntries_consistent hstart (congrArg Prod.fst hindexed)

end Every

end AssetUnpack.Zip
