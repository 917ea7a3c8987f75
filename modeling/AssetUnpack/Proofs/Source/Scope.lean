import AssetUnpack.Proofs.NodeTree.Part
import AssetUnpack.Proofs.Source.Indexes

/-!
# An archive below a scope

An archive that is opened with a scope shows what the whole archive shows below
it: the same listings in the same order, the same kinds, and assets that open to
the same bytes or fail in the same way (`scoped_shows_part`). What else the
archive holds makes no difference.

The two formats go about it differently. A package notes a file at the scope as
an entry that cannot be used, a bundle passes it over, and a bundle does not even
read files outside the scope. For the index all this comes to the same: both
formats come down to `NodeTree.accept`, entry by entry, and what is left is a
matter of indexes alone.
-/

namespace AssetUnpack

open NodeTree (accept acceptAll)

/-! ## Packages -/

namespace Zip

variable {bytes : Bytes} {scope : AssetPath} {i i' : Indexing}

/-- What indexing a package can use of a record. -/
def Record.usable? (bytes : Bytes) (r : Record) : Option (Usable Span) :=
  if r.encrypted then none
  else
    match AssetPath.parse r.name, dataStart? bytes r with
    | .ok path, some start =>
      some ⟨path, if isDirectoryName r.name then .directory else .file, r.span start⟩
    | _, _ => none

theorem indexEntry_accepts (h : i.tree.Consistent) (r : Record) {start : Nat}
    (hstart : dataStart? bytes r = some start) :
    (indexEntry scope i r start).tree =
      (r.usable? bytes).toList.foldl (accept scope) i.tree := by
  unfold Record.usable?
  cases hplain : r.encrypted with
  | true => rw [indexEntry, if_pos hplain]; rfl
  | false =>
      rw [tree_indexEntry scope i hplain, hstart]
      cases hparse : AssetPath.parse r.name with
      | error fault => rw [addEntry, hparse]; rfl
      | ok full =>
          rw [addEntry_of_path hparse]
          show _ = NodeTree.accept scope i.tree _
          rw [NodeTree.accept]
          cases full.stripBase? scope with
          | none => rfl
          | some path =>
              dsimp only
              by_cases hdirectory : isDirectoryName r.name = true
              · rw [if_pos hdirectory, if_pos hdirectory]
                rfl
              · rw [if_neg hdirectory, if_neg hdirectory]
                by_cases hroot : path.isRoot = true
                · -- Either way a file at the scope is refused.
                  obtain rfl := AssetPath.isRoot_iff.mp hroot
                  obtain ⟨e, he⟩ := h.insertLeaf_root (r.span start)
                  rw [if_pos hroot, NodeTree.insert, he]
                  rfl
                · rw [if_neg hroot]
                  rfl

theorem indexEntries_accept {number : Nat} {records : List Record} (h : i.tree.Consistent)
    (hok : (indexEntries bytes scope number i records).1 = .ok i') :
    i'.tree = (records.filterMap (·.usable? bytes)).foldl (accept scope) i.tree := by
  induction records generalizing number i with
  | nil =>
      obtain rfl := Except.ok.inj hok
      rfl
  | cons r records ih =>
      rw [indexEntries] at hok
      split at hok
      · cases hok
      · next start hstart =>
          rw [ih (indexEntry_consistent scope h r start) hok, indexEntry_accepts h r hstart]
          cases husable : r.usable? bytes with
          | none => rw [List.filterMap_cons_none husable]; rfl
          | some e => rw [List.filterMap_cons_some husable]; rfl

/-- Whether the records can be indexed is no matter of the scope. -/
theorem indexEntries_succeeds (scope' : AssetPath) (j : Indexing) {number : Nat}
    {records : List Record} (hok : (indexEntries bytes scope number i records).1 = .ok i') :
    ∃ j', (indexEntries bytes scope' number j records).1 = .ok j' := by
  induction records generalizing number i j with
  | nil => exact ⟨j, rfl⟩
  | cons r records ih =>
      rw [indexEntries] at hok ⊢
      split at hok
      · cases hok
      · exact ih _ hok

theorem ofRecords_accept {records : List Record} {p : Package}
    (hok : Package.ofRecords bytes scope records = .ok p) :
    p.tree = acceptAll scope (records.filterMap (·.usable? bytes)) := by
  unfold Package.ofRecords at hok
  cases hindexed : (indexEntries bytes scope 0 ⟨.empty, []⟩ records).1 with
  | error e =>
      rw [hindexed] at hok
      cases hok
  | ok i =>
      rw [hindexed] at hok
      obtain rfl := Except.ok.inj hok
      exact indexEntries_accept NodeTree.consistent_empty hindexed

theorem ofRecords_succeeds (scope' : AssetPath) {records : List Record} {p : Package}
    (hok : Package.ofRecords bytes scope records = .ok p) :
    ∃ p', Package.ofRecords bytes scope' records = .ok p' := by
  unfold Package.ofRecords at hok ⊢
  cases hindexed : (indexEntries bytes scope 0 ⟨.empty, []⟩ records).1 with
  | error e =>
      rw [hindexed] at hok
      cases hok
  | ok i =>
      obtain ⟨j, hj⟩ := indexEntries_succeeds scope' ⟨.empty, []⟩ hindexed
      rw [hj]
      exact ⟨_, rfl⟩

end Zip

/-! ## Bundles -/

namespace Tar

variable {scope : AssetPath} {l l' : Loading}

/-- What loading a bundle can use of a member. -/
def Member.usable? (m : Member) : Option (Usable Bytes) :=
  match Bytes.text? m.name, flagKind? m.flag with
  | some name, some kind =>
    match AssetPath.parse (String.ofList (stripCurrent name.toList)) with
    | .ok path => some ⟨path, kind, m.content⟩
    | .error _ => none
  | _, _ => none

/-- What loading a bundle can use of what is read of it. -/
def Item.usable? : Item → Option (Usable Bytes)
  | .member m => m.usable?
  | .broken _ => none

/-- The tree that items come to, if the bundle can be read to its end. -/
def treeOfItems (scope : AssetPath) (items : List Item) : Except ArchiveFault MemoryTree :=
  (loadItems scope ⟨.empty, [], 0⟩ items).1.map (·.tree)

theorem loadMember_of_unusable {m : Member} (h : m.usable? = none) (scope : AssetPath)
    (l : Loading) : ∃ event, loadMember scope l m = .ok (l.note event) := by
  unfold Member.usable? at h
  unfold loadMember
  cases hname : Bytes.text? m.name with
  | none => exact ⟨_, rfl⟩
  | some name =>
      cases hkind : flagKind? m.flag with
      | none => exact ⟨_, rfl⟩
      | some kind =>
          rw [hname, hkind] at h
          dsimp only at h ⊢
          cases hparse : AssetPath.parse (String.ofList (stripCurrent name.toList)) with
          | error fault => exact ⟨_, rfl⟩
          | ok full =>
              rw [hparse] at h
              cases h

/-- Of a member that can be used, only the text of its name is not in the entry, and
that shows in events alone. -/
theorem loadMember_of_usable {m : Member} {e : Usable Bytes} (h : m.usable? = some e)
    (scope : AssetPath) (l : Loading) :
    ∃ name, loadMember scope l m =
      match e.path.stripBase? scope with
      | none => .ok l
      | some path =>
        if path.isRoot then .ok l
        else
          match e.kind, m.failure? with
          | .directory, _ => .ok (l.added name (l.tree.ensureDirectory path))
          | .file, none => .ok (l.added name (l.tree.insertLeaf path e.value))
          | .file, some fault => .error (.tarContent name fault.message) := by
  unfold Member.usable? at h
  unfold loadMember
  cases hname : Bytes.text? m.name with
  | none => simp [hname] at h
  | some name =>
      cases hkind : flagKind? m.flag with
      | none => simp [hname, hkind] at h
      | some kind =>
          rw [hname, hkind] at h
          dsimp only at h ⊢
          cases hparse : AssetPath.parse (String.ofList (stripCurrent name.toList)) with
          | error fault => simp [hparse] at h
          | ok full =>
              rw [hparse] at h
              obtain rfl := Option.some.inj h
              refine ⟨name, ?_⟩
              dsimp only
              cases full.stripBase? scope with
              | none => rfl
              | some path =>
                  cases kind <;> cases m.failure? <;>
                    simp only [MemoryTree.insertDirectory_text, MemoryTree.insertFile_text]

theorem loadMember_accepts (h : l.tree.Consistent) {m : Member}
    (hok : loadMember scope l m = .ok l') :
    l'.tree = m.usable?.toList.foldl (accept scope) l.tree := by
  cases husable : m.usable? with
  | none =>
      obtain ⟨event, hload⟩ := loadMember_of_unusable husable scope l
      rw [hload] at hok
      obtain rfl := Except.ok.inj hok
      rfl
  | some e =>
      obtain ⟨name, hload⟩ := loadMember_of_usable husable scope l
      show l'.tree = NodeTree.accept scope l.tree e
      rw [hload] at hok
      split at hok
      · next hstrip =>
          obtain rfl := Except.ok.inj hok
          exact (NodeTree.accept_of_none hstrip).symm
      · next path hstrip =>
          rw [NodeTree.accept_of_some hstrip]
          split at hok
          · next hroot =>
              -- At the scope there is a directory already, and a file is refused.
              obtain rfl := Except.ok.inj hok
              obtain rfl := AssetPath.isRoot_iff.mp hroot
              cases e.kind with
              | directory => rw [NodeTree.insert, h.ensureDirectory_root]; rfl
              | file =>
                  obtain ⟨fault, hfault⟩ := h.insertLeaf_root e.value
                  rw [NodeTree.insert, hfault]
                  rfl
          · split at hok
            · next hkind =>
                obtain rfl := Except.ok.inj hok
                rw [hkind, tree_added]
                rfl
            · next hkind _ =>
                obtain rfl := Except.ok.inj hok
                rw [hkind, tree_added]
                rfl
            · cases hok

theorem loadItems_accept {items : List Item} (h : l.tree.Consistent)
    (hok : (loadItems scope l items).1 = .ok l') :
    l'.tree = (items.filterMap Item.usable?).foldl (accept scope) l.tree := by
  induction items generalizing l with
  | nil =>
      obtain rfl := Except.ok.inj hok
      rfl
  | cons item items ih =>
      cases item with
      | broken detail => cases hok
      | member m =>
          rw [loadItems] at hok
          cases hload : loadMember scope l m with
          | error fault =>
              rw [hload] at hok
              cases hok
          | ok l₁ =>
              rw [hload] at hok
              have hnext := loadMember_accepts h hload
              have h₁ : l₁.tree.Consistent := by
                rw [hnext]
                exact List.foldlRecOn _ _ h fun _ ht e _ => ht.accept scope e
              rw [ih h₁ hok, hnext]
              cases husable : m.usable? with
              | none =>
                  rw [List.filterMap_cons_none (show (Item.member m).usable? = _ from husable)]
                  rfl
              | some e =>
                  rw [List.filterMap_cons_some (show (Item.member m).usable? = _ from husable)]
                  rfl

/-- A member that can be loaded into the whole can be loaded below a scope, where
its content is not read if it lies outside. -/
theorem loadMember_succeeds {l₁ : Loading} {m : Member} (hok : loadMember .root l m = .ok l₁)
    (scope : AssetPath) (j : Loading) : ∃ j₁, loadMember scope j m = .ok j₁ := by
  cases husable : m.usable? with
  | none =>
      obtain ⟨event, hload⟩ := loadMember_of_unusable husable scope j
      exact ⟨_, hload⟩
  | some e =>
      obtain ⟨name, hwhole⟩ := loadMember_of_usable husable .root l
      obtain ⟨name', hpart⟩ := loadMember_of_usable husable scope j
      rw [hwhole, NodeTree.stripBase?_root] at hok
      rw [hpart]
      cases hstrip : e.path.stripBase? scope with
      | none => exact ⟨_, rfl⟩
      | some path =>
          dsimp only at hok ⊢
          by_cases hroot : path.isRoot = true
          · rw [if_pos hroot]
            exact ⟨_, rfl⟩
          have hfull : ¬ e.path.isRoot = true := by
            intro hnil
            rw [AssetPath.stripBase?_eq_some.mp hstrip] at hnil
            have hnames : scope.names ++ path.names = [] := List.isEmpty_iff.mp hnil
            exact hroot (List.isEmpty_iff.mpr (List.append_eq_nil_iff.mp hnames).2)
          rw [if_neg hroot]
          rw [if_neg hfull] at hok
          split at hok
          · exact ⟨_, rfl⟩
          · exact ⟨_, rfl⟩
          · cases hok

theorem loadItems_succeeds {items : List Item} (hok : (loadItems .root l items).1 = .ok l')
    (scope : AssetPath) (j : Loading) : ∃ j', (loadItems scope j items).1 = .ok j' := by
  induction items generalizing l j with
  | nil => exact ⟨j, rfl⟩
  | cons item items ih =>
      cases item with
      | broken detail => cases hok
      | member m =>
          rw [loadItems] at hok ⊢
          cases hload : loadMember .root l m with
          | error fault =>
              rw [hload] at hok
              cases hok
          | ok l₁ =>
              rw [hload] at hok
              obtain ⟨j₁, hj₁⟩ := loadMember_succeeds hload scope j
              rw [hj₁]
              exact ih hok j₁

theorem treeOfItems_accept {items : List Item} {t : MemoryTree}
    (hok : treeOfItems scope items = .ok t) :
    t = acceptAll scope (items.filterMap Item.usable?) := by
  unfold treeOfItems at hok
  cases hload : (loadItems scope ⟨.empty, [], 0⟩ items).1 with
  | error fault =>
      rw [hload] at hok
      cases hok
  | ok l =>
      rw [hload] at hok
      obtain rfl := Except.ok.inj hok
      exact loadItems_accept NodeTree.consistent_empty hload

theorem treeOfItems_succeeds {items : List Item} {t : MemoryTree}
    (hok : treeOfItems .root items = .ok t) (scope : AssetPath) :
    ∃ t', treeOfItems scope items = .ok t' := by
  unfold treeOfItems at hok ⊢
  cases hload : (loadItems .root ⟨.empty, [], 0⟩ items).1 with
  | error fault =>
      rw [hload] at hok
      cases hok
  | ok l =>
      obtain ⟨j, hj⟩ := loadItems_succeeds hload scope ⟨.empty, [], 0⟩
      rw [hj]
      exact ⟨_, rfl⟩

theorem load_of_items {input : Reader} {items : List Item}
    (hitems : members {} (.start input) = items) {t : MemoryTree}
    (hok : treeOfItems scope items = .ok t) : (load input scope).1 = .ok t := by
  unfold treeOfItems at hok
  unfold load
  rw [hitems]
  generalize loadItems scope ⟨.empty, [], 0⟩ items = loaded at hok ⊢
  obtain ⟨result, events⟩ := loaded
  cases result with
  | error fault => cases hok
  | ok l =>
      obtain rfl := Except.ok.inj hok
      rfl

end Tar

/-! ## Both formats -/

namespace Source

/-- Two ways of opening an asset that come to the same: the same bytes, whenever they
are read, or errors of one kind. -/
inductive OpensAlike : Except IoError Content → Except IoError Content → Prop
  | ok (content : Content) : OpensAlike (.ok content) (.ok content)
  | error {e e' : IoError} (h : e.kind = e'.kind) : OpensAlike (.error e) (.error e')

/-- A source that shows what another shows below a path. The root of the one is always
there, so nothing is said of what it is. -/
structure PartOf (scope : AssetPath) (part whole : Source) : Prop where
  list : ∀ disk q, part.list disk q = whole.list disk (scope.append q)
  kind : ∀ disk q, q ≠ .root → part.kind disk q = whole.kind disk (scope.append q)
  openAsset : ∀ disk busy q, q ≠ .root →
    OpensAlike (part.openAsset disk busy q) (whole.openAsset disk busy (scope.append q))

theorem Reads.partOf {α : Type} {s s' : Source} {t w : NodeTree α} {scope : AssetPath}
    {give : Disk → Bool → AssetPath → α → Except IoError Content} (hs : s.Reads t give)
    (hs' : s'.Reads w give) (h : t.PartOf scope w)
    (hgive : ∀ disk busy p p' value,
      OpensAlike (give disk busy p value) (give disk busy p' value)) : s.PartOf scope s' := by
  refine ⟨fun disk q => ?_, fun disk q hq => ?_, fun disk busy q hq => ?_⟩
  · rw [hs.list, hs'.list, h.children]
  · rw [hs.kind, hs'.kind, h.kind? hq]
  · rw [hs.openAsset, hs'.openAsset, NodeTree.leafAt, NodeTree.leafAt, h.below q hq]
    cases w.get? (scope.append q) with
    | none => exact .error rfl
    | some node =>
        cases node with
        | directory names => exact .error rfl
        | leaf value => exact hgive disk busy _ _ value

theorem partOf_ofZip {p p' : Zip.Package} {scope : AssetPath} (h : p.tree.PartOf scope p'.tree)
    (later : Disk → Bytes) : (ofZip p later).PartOf scope (.ofZip p' later) := by
  refine (Zip.reads_ofZip p later).partOf (Zip.reads_ofZip p' later) h ?_
  intro disk busy q q' span
  unfold Zip.Span.give
  split
  · exact .error rfl
  split
  · exact .error rfl
  · exact .ok _

theorem partOf_ofMemory {t t' : MemoryTree} {scope : AssetPath} (h : t.PartOf scope t') :
    (ofMemory t true).PartOf scope (.ofMemory t' true) :=
  (reads_ofMemory t).partOf (reads_ofMemory t') h fun _ _ _ _ _ => .ok _

/-- Whatever entries an archive of either format is made of: opened with a scope it
shows what the whole archive shows below that path, unless a file of the whole stands
at the scope or above it. Entries outside the scope may as well not be there. -/
theorem scoped_shows_part {scope : String} {root : AssetPath}
    (hscope : AssetPath.parse scope = .ok root) :
    (∀ bytes records whole, Zip.Package.ofRecords bytes .root records = .ok whole →
      let es := records.filterMap (·.usable? bytes)
      NodeTree.Unshadowed root es →
      ∃ part, Zip.Package.ofRecords bytes root records = .ok part ∧
        part.tree = acceptAll root (es.filter fun e => e.path.startsWith root) ∧
        ∀ later, (ofZip part later).PartOf root (.ofZip whole later) ∧
          (Zip.directory? bytes = some records →
            (openZip bytes later "").1 = .ok (.ofZip whole later) ∧
              (openZip bytes later scope).1 = .ok (.ofZip part later))) ∧
    ∀ items whole, Tar.treeOfItems .root items = .ok whole →
      let es := items.filterMap Tar.Item.usable?
      NodeTree.Unshadowed root es →
      ∃ part, Tar.treeOfItems root items = .ok part ∧
        part = acceptAll root (es.filter fun e => e.path.startsWith root) ∧
        (ofMemory part true).PartOf root (.ofMemory whole true) ∧
        ∀ bytes gzipped, Tar.members {} (.start (Tar.inputOf bytes gzipped)) = items →
          (openTar bytes gzipped "").1 = .ok (.ofMemory whole true) ∧
            (openTar bytes gzipped scope).1 = .ok (.ofMemory part true) := by
  have hwhole : AssetPath.parse "" = .ok .root := rfl
  constructor
  · intro bytes records whole hok es hfree
    obtain ⟨part, hpart⟩ := Zip.ofRecords_succeeds root hok
    have htree := Zip.ofRecords_accept hpart
    refine ⟨part, hpart, ?_, fun later => ⟨partOf_ofZip ?_ later, fun hdirectory => ?_⟩⟩
    · rw [NodeTree.acceptAll_filter]
      exact htree
    · rw [htree, Zip.ofRecords_accept hok]
      exact hfree.partOf
    · exact ⟨Zip.openZip_of_records hwhole hdirectory hok,
        Zip.openZip_of_records hscope hdirectory hpart⟩
  · intro items whole hok es hfree
    obtain ⟨part, hpart⟩ := Tar.treeOfItems_succeeds hok root
    have htree := Tar.treeOfItems_accept hpart
    refine ⟨part, hpart, ?_, partOf_ofMemory ?_, fun bytes gzipped hitems => ?_⟩
    · rw [NodeTree.acceptAll_filter]
      exact htree
    · rw [htree, Tar.treeOfItems_accept hok]
      exact hfree.partOf
    · exact ⟨Tar.openTar_of_load hwhole (Tar.load_of_items hitems hok),
        Tar.openTar_of_load hscope (Tar.load_of_items hitems hpart)⟩

/-- The small archive opened at its directory `a`: that a file of the same name comes
last is no matter, for it was refused. -/
theorem scoped_shows_part_small :
    (∃ whole part, (openZip Zip.small (fun _ => Zip.small) "").1 = .ok whole ∧
      (openZip Zip.small (fun _ => Zip.small) "a").1 = .ok part ∧
      part.PartOf ⟨[⟨"a", rfl⟩]⟩ whole) ∧
    ∃ whole part, (openTar Tar.small false "").1 = .ok whole ∧
      (openTar Tar.small false "a").1 = .ok part ∧ part.PartOf ⟨[⟨"a", rfl⟩]⟩ whole := by
  have hscope : AssetPath.parse "a" = .ok ⟨[⟨"a", rfl⟩]⟩ := rfl
  obtain ⟨hzip, htar⟩ := scoped_shows_part hscope
  constructor
  · obtain ⟨whole, hwhole, -⟩ :=
      Zip.ofRecords_alike .root Zip.smallRecords_carry smallEntries_wellNamed
    obtain ⟨part, -, -, hlater⟩ := hzip Zip.small Zip.smallRecords whole hwhole (by decide +kernel)
    obtain ⟨hpart, hopens⟩ := hlater fun _ => Zip.small
    obtain ⟨hall, hbelow⟩ := hopens Zip.directory?_small
    exact ⟨_, _, hall, hbelow, hpart⟩
  · obtain ⟨l, hload, -⟩ := Tar.loadItems_of_entries .root ⟨.empty, [], 0⟩
      Tar.smallMembers_carry smallEntries_wellNamed
    have hwhole : Tar.treeOfItems .root (Tar.smallMembers.map .member) = .ok l.tree := by
      rw [Tar.treeOfItems, hload]
      rfl
    obtain ⟨part, -, -, hpart, hopens⟩ := htar _ l.tree hwhole (by decide +kernel)
    obtain ⟨hall, hbelow⟩ := hopens Tar.small false Tar.members_small
    exact ⟨_, _, hall, hbelow, hpart⟩

end Source

end AssetUnpack
