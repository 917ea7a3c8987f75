import AssetUnpack.Proofs.Extraction.Aside
import AssetUnpack.Proofs.Extraction.Visit
import AssetUnpack.Proofs.Source.Answers

/-!
# A directory and its copy in memory

A tree in memory that holds what is below a directory (`CopyOf`), its children in the
order of their bytes, gives the same answers as the directory does, as long as
nothing below the directory changes. A run changes nothing outside its destination,
so where source and destination are apart the answers agree at every moment of the
run (`Replicated`), and with them every task does the same to the run. The one
difference is when the bytes are read: from the tree at once, and from the directory
after the destination file was made, which is another file.

That leaves the length of paths. The disk refuses a path that is too long, however
short the names in it are, and a tree in memory has no such limit.
-/

namespace AssetUnpack

/-- A tree in memory of the directories and files below a place. -/
structure MemoryTree.CopyOf (t : MemoryTree) (d : Disk) (root : Place) : Prop where
  directory : ∀ q, (∃ names, t.get? q = some (.directory names)) ↔
    d.get? (q.below root) = some .directory
  file : ∀ q bytes, t.get? q = some (.leaf bytes) ↔
    ∃ number, d.get? (q.below root) = some (.file number bytes)
  /-- The names below the place are names of assets, and nothing else is there. -/
  named : ∀ place, d.get? (root ++ place) ≠ none →
    ∃ q, root ++ place = q.below root ∧ t.get? q ≠ none
  sorted : ∀ q, (t.children q).Pairwise fun n m => Bytes.ofString n.text < Bytes.ofString m.text

/-- Names in order are what a directory lists that holds them. -/
theorem Disk.sortedNames_eq {d : Disk} {place : Place} (hkeys : d.table.keys.Nodup)
    {names : List String}
    (hsorted : names.Pairwise fun a b => Bytes.ofString a < Bytes.ofString b)
    (hmem : ∀ name, name ∈ names ↔ d.get? (place ++ [name]) ≠ none) :
    d.sortedNames place = names := by
  have hbytes : (d.sortedNames place).Pairwise fun a b => Bytes.ofString a < Bytes.ofString b :=
    (sortedNames_increasing hkeys place).imp fun hlt => Bytes.ofString_lt hlt
  have hirrefl : ∀ bs : Bytes, ¬ bs < bs := fun bs => List.lt_irrefl bs
  have hnodup : ∀ {l : List String},
      l.Pairwise (fun a b => Bytes.ofString a < Bytes.ofString b) → l.Nodup := by
    intro l h
    refine h.imp ?_
    rintro a b hlt rfl
    exact hirrefl _ hlt
  refine List.Perm.eq_of_pairwise (fun a b _ _ hab hba => ?_) hbytes hsorted ?_
  · exact absurd (List.lt_trans hab hba) (hirrefl _)
  · rw [List.perm_ext_iff_of_nodup (hnodup hbytes) (hnodup hsorted)]
    intro name
    rw [mem_sortedNames, hmem]

namespace MemoryTree.CopyOf

variable {t : MemoryTree} {d d' : Disk} {root : Place} {q : AssetPath}

theorem congr (h : t.CopyOf d root)
    (hsame : ∀ place, d'.get? (root ++ place) = d.get? (root ++ place)) : t.CopyOf d' root := by
  have hbelow : ∀ q : AssetPath, d'.get? (q.below root) = d.get? (q.below root) := fun q => hsame _
  refine ⟨fun q => ?_, fun q bytes => ?_, fun place => ?_, h.sorted⟩
  · rw [hbelow]
    exact h.directory q
  · rw [hbelow]
    exact h.file q bytes
  · rw [hsame]
    exact h.named place

theorem ne_none_iff (h : t.CopyOf d root) : t.get? q ≠ none ↔ d.get? (q.below root) ≠ none := by
  constructor
  · intro hnode
    obtain ⟨node, hnode⟩ := Option.ne_none_iff_exists'.mp hnode
    cases node with
    | directory names =>
        rw [(h.directory q).mp ⟨names, hnode⟩]
        exact Option.some_ne_none _
    | leaf bytes =>
        obtain ⟨number, hfile⟩ := (h.file q bytes).mp hnode
        rw [hfile]
        exact Option.some_ne_none _
  · intro hthere
    obtain ⟨q', hplace, hnode⟩ := h.named _ hthere
    rwa [AssetPath.below_injective hplace]

theorem mem_children_iff (h : t.CopyOf d root) (ht : t.Consistent) (name : String) :
    name ∈ (t.children q).map (·.text) ↔ d.get? (q.below root ++ [name]) ≠ none := by
  have hchild : ∀ n : Name, (q.child n).below root = q.below root ++ [n.text] :=
    fun n => AssetPath.below_snoc q.names n root
  constructor
  · intro hmem
    obtain ⟨n, hn, rfl⟩ := List.mem_map.mp hmem
    rw [← hchild]
    exact h.ne_none_iff.mp ((ht.listed q n).mp hn)
  · intro hthere
    rw [AssetPath.below, List.append_assoc] at hthere
    obtain ⟨q', hplace, hnode⟩ := h.named _ hthere
    have hnames := List.append_cancel_left hplace
    obtain ⟨names, rest, hsplit, hfront, hlast⟩ := List.map_eq_append_iff.mp hnames.symm
    obtain ⟨n, rfl, rfl⟩ : ∃ n, rest = [n] ∧ n.text = name := by
      cases rest with
      | nil => cases hlast
      | cons n rest =>
          obtain ⟨hn, hrest⟩ := List.cons.inj hlast
          exact ⟨n, by rw [List.map_eq_nil_iff.mp hrest], hn⟩
    have hq : q' = q.child n := by
      obtain ⟨qs⟩ := q
      obtain ⟨qs'⟩ := q'
      obtain rfl := map_text_injective hfront
      exact congrArg AssetPath.mk hsplit
    rw [hq] at hnode
    exact List.mem_map_of_mem ((ht.listed q n).mpr hnode)

end MemoryTree.CopyOf

namespace Extraction

open Disk (pathOf)

/-! ## The same answers -/

/-- A directory with its copy in memory, apart from a destination, and the nodes that
can be asked for: those whose paths are not too long. -/
structure Replicated (t : MemoryTree) (d : Disk) (base : HostPath) (root dest : Place)
    (start : AssetPath) : Prop where
  resolves : d.resolve base = .ok (root, .directory)
  linkFree : d.LinkFreeAt root
  keys : d.table.keys.Nodup
  consistent : t.Consistent
  copy : t.CopyOf d root
  apart : ¬ root <+: dest ∧ ¬ dest <+: root
  short : ∀ q, start.names <+: q.names → t.get? q ≠ none →
    (base.under q).text.utf8ByteSize < Disk.pathLimit

section Answers

variable {t : MemoryTree} {d₀ : Disk} {base : HostPath} {root dest : Place} {start q : AssetPath}
  {known : List AssetPath} {r : Run} {config : ExtractConfig}

theorem Replicated.outside (h : Replicated t d₀ base root dest start) (place : Place) :
    ¬ StrictlyBelow dest (root ++ place) := by
  rintro ⟨names, -, heq⟩
  have hdest : dest <+: root ++ place := ⟨names, heq.symm⟩
  rcases List.prefix_or_prefix_of_prefix (List.prefix_append root place) hdest with hin | hin
  · exact h.apart.1 hin
  · exact h.apart.2 hin

/-- What is replicated when a run starts is replicated at every moment of it. -/
theorem Replicated.mono (h : Replicated t d₀ base root dest start)
    (ha : Aside d₀ dest known r) : Replicated t r.disk base root dest start :=
  ⟨ha.resolve h.resolves, ha.linkFree root h.linkFree, ha.keys h.keys, h.consistent,
    h.copy.congr fun place => ha.outside _ (h.outside place), h.apart, h.short⟩

theorem Replicated.list_eq (h : Replicated t r.disk base root dest start)
    (hstart : start.names <+: q.names) (hnode : t.get? q ≠ none) :
    (directorySource base).list r q = (.ok ((t.children q).map (·.text)), []) := by
  have hshort := h.short q hstart hnode
  show Directory.list r.disk (base.under q) = _
  obtain ⟨node, hnode⟩ := Option.ne_none_iff_exists'.mp hnode
  cases node with
  | leaf bytes =>
      obtain ⟨number, hfile⟩ := (h.copy.file q bytes).mp hnode
      rw [Directory.list_under_leaf h.resolves h.linkFree hshort hfile (by simp),
        NodeTree.children_of_leaf hnode]
      rfl
  | directory names =>
      have hdir := (h.copy.directory q).mp ⟨names, hnode⟩
      have hsorted : ((t.children q).map (·.text)).Pairwise
          fun a b => Bytes.ofString a < Bytes.ofString b :=
        List.pairwise_map.mpr (h.copy.sorted q)
      rw [Directory.list_under h.resolves h.linkFree hshort hdir,
        Disk.sortedNames_eq h.keys hsorted (h.copy.mem_children_iff h.consistent)]

theorem Replicated.kind_eq (h : Replicated t r.disk base root dest start)
    (hstart : start.names <+: q.names) (hnode : t.get? q ≠ none) :
    (directorySource base).kind r q = t.kind? q := by
  have hshort := h.short q hstart hnode
  show (Source.ofDirectory base).kind r.disk q = _
  obtain ⟨node, hnode⟩ := Option.ne_none_iff_exists'.mp hnode
  rw [NodeTree.kind?, hnode]
  cases node with
  | leaf bytes =>
      obtain ⟨number, hfile⟩ := (h.copy.file q bytes).mp hnode
      simp only [Source.ofDirectory, Disk.resolve_under h.resolves h.linkFree hshort hfile]
      rfl
  | directory names =>
      have hdir := (h.copy.directory q).mp ⟨names, hnode⟩
      simp only [Source.ofDirectory, Disk.resolve_under h.resolves h.linkFree hshort hdir]
      rfl

/-- A copy does not depend on what is opened beyond the bytes that are read once the
destination is made. -/
theorem copyLeaf_eq_of_content {s s' : LiveSource} {path : AssetPath} (config : ExtractConfig)
    (file : HostPath) {content content' : Content} (hopen : s.openAsset r path = .ok content)
    (hopen' : s'.openAsset r path = .ok content')
    (hsame : ∀ place d, r.disk.createFile file = .ok (place, d) → content d = content' d) :
    copyLeaf s config path file r = copyLeaf s' config path file r := by
  unfold copyLeaf
  rw [hopen, hopen']
  split
  · rfl
  dsimp only
  cases hcreate : r.disk.createFile file with
  | error e => rfl
  | ok made =>
      obtain ⟨place, d⟩ := made
      dsimp only
      rw [hsame place d hcreate]

/-- A leaf is laid out in the same way from the directory and from its copy. -/
theorem Replicated.extractLeaf_eq (h : Replicated t d₀ base root dest start)
    (names : List Name) {n : Name} (ha : Aside d₀ dest known r)
    (hstart : start.names <+: q.names) (hnode : t.get? q ≠ none)
    (hknown : (⟨names⟩ : AssetPath) ∈ known) :
    extractLeaf (directorySource base) config q
        ((⟨pathOf dest⟩ : HostPath).under ⟨names ++ [n]⟩) r =
      extractLeaf (memorySource t) config q
        ((⟨pathOf dest⟩ : HostPath).under ⟨names ++ [n]⟩) r := by
  have hnow := h.mono ha
  have hkind : (directorySource base).kind r q = t.kind? q := hnow.kind_eq hstart hnode
  have hkind' : (memorySource t).kind r q = t.kind? q := rfl
  obtain ⟨node, hthere⟩ := Option.ne_none_iff_exists'.mp hnode
  unfold extractLeaf
  rw [hkind, hkind', NodeTree.kind?, hthere]
  cases node with
  | directory children => rfl
  | leaf bytes =>
      have hbegun : Aside d₀ dest known (beginLeaf q r) := ha.congr rfl
      obtain ⟨number, hfile⟩ := ((h.mono hbegun).copy.file q bytes).mp hthere
      have hopen : (directorySource base).openAsset (beginLeaf q r) q =
          .ok fun d => .ofBytes (d.contentAt (q.below root)) :=
        Source.ofDirectory_opens hnow.resolves hnow.linkFree (h.short q hstart hnode) hfile
          (by simp) false
      have hopen' : (memorySource t).openAsset (beginLeaf q r) q = .ok fun _ => .ofBytes bytes := by
        show (t.leafAt q).map (fun content _ => Reader.ofBytes content) = _
        rw [NodeTree.leafAt, hthere]
        rfl
      have hcopy := copyLeaf_eq_of_content config
        ((⟨pathOf dest⟩ : HostPath).under ⟨names ++ [n]⟩) hopen hopen' ?_
      · simp only [Option.map_some, hcopy]
      -- The file that is made is another than the one that is read.
      intro place d hcreate
      rw [hbegun.underway.free.under, AssetPath.below_snoc] at hcreate
      have hplain := hbegun.underway.free.plain names n
      rcases hbegun.underway.opens_or_barred hknown n with ho | hb
      · obtain ⟨-, rfl⟩ := hplain.createFile_ok ho hcreate
        have hother : q.below root ≠ AssetPath.below ⟨names⟩ dest ++ [n.text] := by
          intro heq
          exact h.outside _ (heq ▸ strictlyBelow_below names n dest)
        simp only [Disk.contentAt]
        rw [Disk.get?_keep_of_ne (Disk.place_ne_nil _ _) hother, hfile]
      · obtain ⟨err, herr⟩ := hplain.createFile_of_barred hb
        rw [herr] at hcreate
        cases hcreate

end Answers

/-! ## The same run -/

section Run

variable {t : MemoryTree} {d₀ : Disk} {base : HostPath} {root dest : Place} {start : AssetPath}
  (config : ExtractConfig)

mutual

theorem Replicated.node_alike (h : Replicated t d₀ base root dest start)
    {known : List AssetPath} {path : AssetPath} {names : List Name} {n : Name} {r : Run}
    (ha : Aside d₀ dest known r)
    (hknown : (⟨names⟩ : AssetPath) ∈ known) (hstart : start.names <+: path.names)
    (hnode : t.get? path ≠ none) :
    performAll (directorySource base) config ⟨pathOf dest⟩
        (planNode (directorySource base) config ⟨pathOf dest⟩ path ⟨names ++ [n]⟩ r) r =
      performAll (memorySource t) config ⟨pathOf dest⟩
        (planNode (memorySource t) config ⟨pathOf dest⟩ path ⟨names ++ [n]⟩ r) r := by
  have hlist := (h.mono ha).list_eq hstart hnode
  have hlist' := memorySource_list t r path
  have hnoted : Aside d₀ dest known (r.noteAll []) := ha.congr rfl
  match hchildren : t.children path with
  | [] =>
      rw [hchildren] at hlist hlist'
      rw [planNode_of_leaf hlist, planNode_of_leaf hlist']
      exact h.extractLeaf_eq names hnoted hstart hnode hknown
  | m :: ms =>
      rw [hchildren, List.map_cons] at hlist hlist'
      have hd : path.depth < (directorySource base).depthLimit :=
        LiveSource.depth_lt_of_list (by rw [hlist])
      have hd' : path.depth < (memorySource t).depthLimit :=
        LiveSource.depth_lt_of_list (by rw [hlist'])
      rw [planNode_of_children hlist, planNode_of_children hlist']
      -- Both see to the directory, and it is known to what comes below it.
      have hwithin : Task.Within known (.directory ⟨names ++ [n]⟩) :=
        Task.within_of_snoc rfl hknown
      have hbelow := hnoted.perform (memorySource t) config hwithin
      exact h.children_alike (m :: ms) hbelow List.mem_cons_self hd hd' hstart
        fun x hx => hchildren ▸ hx
termination_by (Disk.pathLimit - path.depth, 1, 0)

theorem Replicated.children_alike (h : Replicated t d₀ base root dest start)
    {known : List AssetPath} {parent place : AssetPath} (names : List Name) {r : Run}
    (ha : Aside d₀ dest known r)
    (hknown : place ∈ known) (hd : parent.depth < (directorySource base).depthLimit)
    (hd' : parent.depth < (memorySource t).depthLimit) (hstart : start.names <+: parent.names)
    (hnames : ∀ n ∈ names, n ∈ t.children parent) :
    performAll (directorySource base) config ⟨pathOf dest⟩
        (planChildren (directorySource base) config ⟨pathOf dest⟩ parent hd place
          (names.map (·.text)) r) r =
      performAll (memorySource t) config ⟨pathOf dest⟩
        (planChildren (memorySource t) config ⟨pathOf dest⟩ parent hd' place
          (names.map (·.text)) r) r := by
  match names with
  | [] => rw [List.map_nil, planChildren_nil, planChildren_nil]; rfl
  | m :: ms =>
      have hnode : t.get? (parent.child m) ≠ none :=
        (h.consistent.listed parent m).mp (hnames m List.mem_cons_self)
      have hstart' : start.names <+: (parent.child m).names :=
        hstart.trans (List.prefix_append parent.names [m])
      rw [List.map_cons, planChildren_of_name hd m.ofString_text,
        planChildren_of_name hd' m.ofString_text, performAll_append, performAll_append]
      have hfirst := h.node_alike (n := m) ha hknown hstart' hnode
      have hafter := ha.performAll (memorySource t) config
        (planNode_ordered (memorySource t) config ⟨pathOf dest⟩ (parent.child m) place.names m r
          hknown)
      unfold AssetPath.child at hfirst
      rw [hfirst]
      exact h.children_alike ms hafter hknown hd hd' hstart fun x hx =>
        hnames x (List.mem_cons_of_mem _ hx)
termination_by (Disk.pathLimit - parent.depth, 0, names.length)
decreasing_by
  · apply Prod.Lex.left
    have hlimit : parent.depth < Disk.pathLimit := hd
    simp only [AssetPath.depth, AssetPath.child, List.length_append, List.length_singleton]
      at hlimit ⊢
    omega
  · apply Prod.Lex.right
    apply Prod.Lex.right
    simp

end

/-- A run over a directory and one over its copy in memory come to the same. -/
theorem Replicated.run_eq {dest : Destination}
    (h : Replicated t d₀ base root dest.place config.sourceRoot)
    (hnode : t.get? config.sourceRoot ≠ none) (hdest : d₀.LinkFreeAt dest.place) :
    run (.ofDirectory base) config dest d₀ = run (.ofMemory t true) config dest d₀ := by
  have hopening := aside_opening hdest config dest []
  have hself := List.prefix_refl config.sourceRoot.names
  have hlist : (directorySource base).list { disk := d₀ } config.sourceRoot =
      (.ok ((t.children config.sourceRoot).map (·.text)), []) := h.list_eq hself hnode
  have hlist' := memorySource_list t { disk := d₀ } config.sourceRoot
  refine (runLive_of_list hlist).trans (Eq.trans ?_ (runLive_of_list hlist').symm)
  refine congrArg finish ?_
  match hchildren : t.children config.sourceRoot with
  | [] =>
      have hkind := h.kind_eq (r := opening config dest d₀ []) hself hnode
      have hkind' : (memorySource t).kind (opening config dest d₀ []) config.sourceRoot =
          t.kind? config.sourceRoot := rfl
      rw [List.map_nil, planRun, planRun, hkind, hkind']
      cases config.sourceRoot.fileName? with
      | none => rfl
      | some n =>
          dsimp only
          split
          · rfl
          · exact h.extractLeaf_eq [] hopening hself hnode (List.mem_singleton.mpr rfl)
  | m :: ms =>
      rw [hchildren, List.map_cons] at hlist hlist'
      have hd : config.sourceRoot.depth < (directorySource base).depthLimit :=
        LiveSource.depth_lt_of_list (by rw [hlist])
      have hd' : config.sourceRoot.depth < (memorySource t).depthLimit :=
        LiveSource.depth_lt_of_list (by rw [hlist'])
      rw [List.map_cons, planRun, planRun, dif_pos hd, dif_pos hd']
      exact h.children_alike config (m :: ms) hopening (List.mem_singleton.mpr rfl) hd hd' hself
        fun x hx => by rwa [hchildren]

end Run

/-- Extracting a directory and extracting its copy in memory come to the same outcome,
on the disk and in the report, whatever is at the destination, as long as source and
destination are apart and no path of the source is too long for the disk. -/
theorem extractInto_copy {disk : Disk} {base : HostPath} {root : Place} {t : MemoryTree}
    (hbase : disk.resolve base = .ok (root, .directory)) (hfree : disk.LinkFreeAt root)
    (hkeys : disk.table.keys.Nodup) (ht : t.Built) (hcopy : t.CopyOf disk root)
    (config : ExtractConfig) (hnode : t.get? config.sourceRoot ≠ none)
    (hshort : ∀ q, config.sourceRoot.names <+: q.names → t.get? q ≠ none →
      (base.under q).text.utf8ByteSize < Disk.pathLimit)
    (destPath : HostPath)
    (hdest : ∀ dest, Destination.resolve disk destPath = .ok dest →
      disk.LinkFreeAt dest.place ∧ ¬ root <+: dest.place ∧ ¬ dest.place <+: root) :
    Source.openDirectory disk base = .ok (.ofDirectory base) ∧
      extractInto (.ofDirectory base) config destPath disk =
        extractInto (.ofMemory t true) config destPath disk := by
  refine ⟨by rw [Source.openDirectory, hbase], ?_⟩
  unfold extractInto
  cases hresolve : Destination.resolve disk destPath with
  | error e => rfl
  | ok dest =>
      obtain ⟨hlinkFree, hapart⟩ := hdest dest hresolve
      have h : Replicated t disk base root dest.place config.sourceRoot :=
        ⟨hbase, hfree, hkeys, ht.consistent, hcopy, hapart, hshort⟩
      exact h.run_eq config hnode hlinkFree

/-- The tree of what is in `in` on the small disk. -/
def heldTree : MemoryTree :=
  NodeTree.empty.addChild .root Disk.fileNamed (.leaf [104, 105])

theorem heldTree_built : heldTree.Built := by
  have hparse : AssetPath.parse "a" = .ok ⟨[Disk.fileNamed]⟩ := by rfl
  refine .file .empty "a" [104, 105] ?_
  unfold MemoryTree.insertFile
  rw [hparse]
  rfl

theorem get?_heldTree (q : AssetPath) :
    heldTree.get? q = if q = ⟨[Disk.fileNamed]⟩ then some (.leaf [104, 105])
      else if q = .root then some (.directory [Disk.fileNamed]) else none := by
  rw [heldTree, NodeTree.get?_addChild, NodeTree.get?_empty]
  by_cases hroot : q = .root
  · simp [hroot]
    rfl
  · simp [hroot]
    rfl

theorem heldTree_root : heldTree.get? .root = some (.directory [Disk.fileNamed]) := rfl

theorem get?_small_in (place : Place) :
    Disk.small.get? (["in"] ++ place) = if place = ["a"] then some (.file 1 [104, 105])
      else if place = [] then some .directory else none := by
  have hentries : Disk.small.table.entries = [(["out"], .directory), (["kept"], .file 0 [7]),
      (["in"], .directory), (["in", "a"], .file 1 [104, 105])] := rfl
  have hput : Disk.small.get? (["in"] ++ place) =
      Table.lookupIn (["in"] ++ place) Disk.small.table.entries := if_neg (by simp)
  rw [hput, hentries]
  by_cases hfile : place = ["a"]
  · rw [if_pos hfile, hfile]
    rfl
  rw [if_neg hfile]
  by_cases hnil : place = []
  · rw [if_pos hnil, hnil]
    rfl
  · rw [if_neg hnil, Table.lookupIn_eq_none]
    simp [hnil, hfile]

theorem heldTree_copyOf : heldTree.CopyOf Disk.small ["in"] := by
  have hroot : ∀ q : AssetPath, q.names.map (·.text) = [] ↔ q = .root := by
    rintro ⟨names⟩
    simp [AssetPath.root]
  have hfile : ∀ q : AssetPath, q.names.map (·.text) = ["a"] ↔ q = ⟨[Disk.fileNamed]⟩ := by
    intro q
    refine ⟨fun h => ?_, fun h => by rw [h]; rfl⟩
    have hbelow : q.below ["in"] = AssetPath.below ⟨[Disk.fileNamed]⟩ ["in"] :=
      congrArg (["in"] ++ ·) h
    exact AssetPath.below_injective hbelow
  have hdisk : ∀ q : AssetPath, Disk.small.get? (q.below ["in"]) =
      if q = ⟨[Disk.fileNamed]⟩ then some (.file 1 [104, 105])
      else if q = .root then some .directory else none := by
    intro q
    rw [AssetPath.below, get?_small_in]
    simp only [hroot, hfile]
  refine ⟨fun q => ?_, fun q bytes => ?_, fun place hplace => ?_, fun q => ?_⟩
  · rw [get?_heldTree, hdisk]
    split
    · simp
    split <;> simp
  · rw [get?_heldTree, hdisk]
    split
    · simp [eq_comm]
    split <;> simp
  · rw [get?_small_in] at hplace
    split at hplace
    · next h => exact ⟨⟨[Disk.fileNamed]⟩, by rw [h]; rfl, by rw [get?_heldTree]; simp⟩
    split at hplace
    · next h =>
        refine ⟨.root, by rw [h]; rfl, ?_⟩
        rw [heldTree_root]
        exact Option.some_ne_none _
    · exact absurd rfl hplace
  · have hchildren : heldTree.children q = [] ∨ heldTree.children q = [Disk.fileNamed] := by
      rw [NodeTree.children, get?_heldTree]
      split
      · next names h =>
          split at h
          · cases h
          split at h
          · exact Or.inr (Node.directory.inj (Option.some.inj h)).symm
          · cases h
      · exact Or.inl rfl
    rcases hchildren with h | h <;> simp [h]

theorem extractInto_copy_small :
    heldTree.Built ∧ heldTree.CopyOf Disk.small ["in"] ∧
      extractInto (.ofDirectory ⟨"/in"⟩) { force := true } ⟨"/out"⟩ Disk.small =
        extractInto (.ofMemory heldTree true) { force := true } ⟨"/out"⟩ Disk.small := by
  have hresolve : Disk.small.resolve ⟨"/in"⟩ = .ok (["in"], .directory) :=
    Disk.linkFreeAt_small.wellFormed.resolve_directory Disk.linkFreeAt_small_in.directory
      (by decide)
  have hout : Disk.small.resolve ⟨"/out"⟩ = .ok (["out"], .directory) :=
    Disk.linkFreeAt_small.wellFormed.resolve_directory Disk.linkFreeAt_small_out.directory
      (by decide)
  refine ⟨heldTree_built, heldTree_copyOf, ?_⟩
  refine (extractInto_copy hresolve Disk.linkFreeAt_small_in (by decide) heldTree_built
    heldTree_copyOf { force := true } ?_ ?_ ⟨"/out"⟩ ?_).2
  · rw [heldTree_root]
    exact Option.some_ne_none _
  · intro q _ hnode
    rw [get?_heldTree] at hnode
    split at hnode
    · next h => rw [h]; decide
    split at hnode
    · next h => rw [h]; decide
    · exact absurd rfl hnode
  · intro dest hdest
    have hsame := hout.symm.trans (Destination.resolve_eq_ok.mp hdest).1
    obtain ⟨place⟩ := dest
    obtain rfl : place = ["out"] := by simpa using hsame.symm
    exact ⟨Disk.linkFreeAt_small_out, by decide, by decide⟩

/-- A path with dots behind it. -/
def dotted (base : HostPath) : Nat → HostPath
  | 0 => base
  | n + 1 => ⟨(dotted base n).text ++ "/."⟩

theorem utf8ByteSize_dotted (base : HostPath) (n : Nat) :
    (dotted base n).text.utf8ByteSize = base.text.utf8ByteSize + 2 * n := by
  induction n with
  | zero => rfl
  | succ n ih =>
      rw [dotted, String.utf8ByteSize_append, ih, show "/.".utf8ByteSize = 2 from by decide]
      omega

theorem resolve_dotted {d : Disk} {base : HostPath} {root : Place}
    (hbase : d.resolve base = .ok (root, .directory)) (n : Nat)
    (hshort : base.text.utf8ByteSize + 2 * n < Disk.pathLimit) :
    d.resolve (dotted base n) = .ok (root, .directory) := by
  induction n with
  | zero => exact hbase
  | succ n ih =>
      refine Disk.resolve_dot (ih (by omega)) ?_
      have hsize := utf8ByteSize_dotted base (n + 1)
      rw [dotted] at hsize
      rw [hsize]
      exact hshort

/-- Under a path just short enough for the disk a file cannot be asked for, though its
copy in memory can. -/
theorem extractInto_copy_long :
    Source.openDirectory Disk.small (dotted ⟨"/in"⟩ 2046) =
        .ok (.ofDirectory (dotted ⟨"/in"⟩ 2046)) ∧
      Disk.small.LinkFreeAt [] ∧ heldTree.Built ∧ heldTree.CopyOf Disk.small ["in"] ∧
      Destination.resolve Disk.small ⟨"/out"⟩ = .ok ⟨["out"]⟩ ∧
      (extractInto (.ofDirectory (dotted ⟨"/in"⟩ 2046)) { sourceRoot := ⟨[Disk.fileNamed]⟩ }
          ⟨"/out"⟩ Disk.small).result ≠
        (extractInto (.ofMemory heldTree true) { sourceRoot := ⟨[Disk.fileNamed]⟩ } ⟨"/out"⟩
          Disk.small).result := by
  have hin : Disk.small.resolve ⟨"/in"⟩ = .ok (["in"], .directory) :=
    Disk.linkFreeAt_small.wellFormed.resolve_directory Disk.linkFreeAt_small_in.directory
      (by decide)
  have hout : Disk.small.resolve ⟨"/out"⟩ = .ok (["out"], .directory) :=
    Disk.linkFreeAt_small.wellFormed.resolve_directory Disk.linkFreeAt_small_out.directory
      (by decide)
  have hdest : Destination.resolve Disk.small ⟨"/out"⟩ = .ok ⟨["out"]⟩ :=
    Destination.resolve_eq_ok.mpr ⟨hout, by decide⟩
  have hbase := resolve_dotted hin 2046 (by decide)
  have hsize := utf8ByteSize_dotted ⟨"/in"⟩ 2046
  generalize dotted ⟨"/in"⟩ 2046 = base at hbase hsize ⊢
  refine ⟨by rw [Source.openDirectory, hbase], Disk.linkFreeAt_small, heldTree_built,
    heldTree_copyOf, hdest, ?_⟩
  have hlong : Disk.pathLimit ≤ (base.under ⟨[Disk.fileNamed]⟩).text.utf8ByteSize := by
    have hunder := Directory.length_le_utf8ByteSize_under base ⟨[Disk.fileNamed]⟩
    rw [hsize] at hunder
    exact Nat.le_trans (by decide) hunder
  have hlist : (directorySource base).list { disk := Disk.small } ⟨[Disk.fileNamed]⟩ =
      (.error .nameTooLong, []) := by
    show Directory.list Disk.small _ = _
    rw [Directory.list, Disk.resolve, Disk.find_under_long _ hbase _ [] hlong]
    rfl
  have hlist' := memorySource_list heldTree { disk := Disk.small } ⟨[Disk.fileNamed]⟩
  unfold extractInto
  rw [hdest]
  show (runLive (directorySource base) { sourceRoot := ⟨[Disk.fileNamed]⟩ } ⟨["out"]⟩
      Disk.small).result ≠
    (runLive (memorySource heldTree) { sourceRoot := ⟨[Disk.fileNamed]⟩ } ⟨["out"]⟩
      Disk.small).result
  rw [runLive_of_error hlist, runLive_of_list hlist']
  intro hsame
  cases hsame

end Extraction

end AssetUnpack
