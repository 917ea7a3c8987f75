import AssetUnpack.Proofs.Extraction.Counts
import AssetUnpack.Proofs.Extraction.Visit

/-!
# A tree in memory, laid out

What a run makes of a node of a tree in memory can be told from the tree and
from the disk that the run starts on (`fate`): a node fails where a regular file
stands in its way, a file is skipped where something stands and is to stay, and
otherwise the node is laid out. `run_mirrors` says that this is what happens to
every node, that every node is counted once, and that nothing else changes.

The invariant is `Mirroring`. The nodes done so far have what they are to have,
all other places are as they were, and a directory that was seen to is there
unless a file stands in its way. So when a node's turn comes, the entry at its
place is the one that the run started on, and so are the files in its way.
-/

namespace AssetUnpack.Extraction

open Disk (pathOf)

/-- Whether a regular file stands at one of the places that names lead through,
the last one included. -/
def blocked (d : Disk) (at_ : Place) : List Name → Bool
  | [] => false
  | n :: names =>
    (match d.get? (at_ ++ [n.text]) with
      | some (.file _ _) => true
      | _ => false) || blocked d (at_ ++ [n.text]) names

theorem blocked_iff {d : Disk} {at_ : Place} {names : List Name} :
    blocked d at_ names = true ↔ ∃ a b, names = a ++ b ∧ a ≠ [] ∧
      ∃ number content, d.get? (AssetPath.below ⟨a⟩ at_) = some (.file number content) := by
  induction names generalizing at_ with
  | nil =>
      refine ⟨fun h => by simp [blocked] at h, ?_⟩
      rintro ⟨a, b, h, hne, -⟩
      exact absurd (List.append_eq_nil_iff.mp h.symm).1 hne
  | cons n names ih =>
      have hstep : ∀ a : List Name, AssetPath.below ⟨n :: a⟩ at_ =
          AssetPath.below ⟨a⟩ (at_ ++ [n.text]) := by
        intro a
        simp [AssetPath.below]
      rw [blocked, Bool.or_eq_true, ih]
      constructor
      · rintro (h | ⟨a, b, rfl, -, hfile⟩)
        · split at h
          · next number content hfile =>
              refine ⟨[n], names, rfl, by simp, number, content, ?_⟩
              simpa [AssetPath.below] using hfile
          · cases h
        · exact ⟨n :: a, b, rfl, by simp, by rw [hstep]; exact hfile⟩
      · rintro ⟨a, b, h, hne, number, content, hfile⟩
        cases a with
        | nil => exact absurd rfl hne
        | cons m a =>
            obtain ⟨rfl, rfl⟩ := List.cons.inj h
            rw [hstep] at hfile
            by_cases ha : a = []
            · subst ha
              left
              simp only [AssetPath.below, List.map_nil, List.append_nil] at hfile
              rw [hfile]
            · exact Or.inr ⟨a, b, rfl, ha, number, content, hfile⟩

theorem blocked_snoc {d : Disk} {at_ : Place} {names : List Name} {n : Name} :
    blocked d at_ (names ++ [n]) = true ↔ blocked d at_ names = true ∨
      ∃ number content,
        d.get? (AssetPath.below ⟨names⟩ at_ ++ [n.text]) = some (.file number content) := by
  rw [blocked_iff, blocked_iff]
  constructor
  · rintro ⟨a, b, h, hne, hfile⟩
    rcases List.eq_nil_or_concat b with rfl | ⟨front, last, rfl⟩
    · rw [List.append_nil] at h
      rw [← h, AssetPath.below_snoc] at hfile
      exact Or.inr hfile
    · rw [List.concat_eq_append, ← List.append_assoc] at h
      obtain ⟨rfl, -⟩ := List.append_inj' h rfl
      exact Or.inl ⟨a, front, rfl, hne, hfile⟩
  · rintro (⟨a, b, rfl, hne, hfile⟩ | hfile)
    · exact ⟨a, b ++ [n], (List.append_assoc a b [n]).symm ▸ rfl, hne, hfile⟩
    · exact ⟨names ++ [n], [], (List.append_nil _).symm, by simp, by
        rw [AssetPath.below_snoc]
        exact hfile⟩

/-- What a run makes of a node. -/
inductive Fate
  /-- A file that is copied. -/
  | copied
  /-- A file for which something is there that stays. -/
  | skipped
  /-- A directory that is made. -/
  | created
  /-- A directory that is there. -/
  | present
  /-- A node with a regular file in its way. -/
  | failed
  /-- An empty directory that is not asked for. -/
  | ignored
  deriving DecidableEq

/-- What a run that starts on a disk makes of a node. A file at the very place of
a directory is in its way; one at the place of a file is not. -/
def fate (config : ExtractConfig) (d : Disk) (base : Place) (q : AssetPath) : Node Bytes → Fate
  | .leaf _ =>
    if blocked d base q.names.dropLast then .failed
    else if config.force = false ∧ d.get? (q.below base) ≠ none then .skipped
    else .copied
  | .directory names =>
    if names = [] ∧ config.emptyDirectories = .skip then .ignored
    else if blocked d base q.names then .failed
    else if d.get? (q.below base) = none then .created
    else .present

/-- The entry that a node is left with, given the entry before. -/
def Fate.Leaves (before : Option DiskEntry) : Fate → Node Bytes → Option DiskEntry → Prop
  | .copied, .leaf content, after => ∃ number, after = some (.file number content)
  | .created, _, after => after = some .directory
  | .present, _, after => before = some .directory ∧ after = before
  | _, _, after => after = before

/-- The number of bytes that a node adds to those written. -/
def Fate.bytes : Fate → Node Bytes → Nat
  | .copied, .leaf content => min content.length Copy.totalLimit
  | _, _ => 0

/-- How the counters change on behalf of a node. -/
structure Counted (f : Fate) (node : Node Bytes) (before after : Report) : Prop where
  filesCopied : after.filesCopied = before.filesCopied + if f = .copied then 1 else 0
  filesSkipped : after.filesSkipped = before.filesSkipped + if f = .skipped then 1 else 0
  directoriesCreated :
    after.directoriesCreated = before.directoriesCreated + if f = .created then 1 else 0
  nodesFailed : after.nodesFailed = before.nodesFailed + if f = .failed then 1 else 0
  leavesUnreadable : after.leavesUnreadable = before.leavesUnreadable
  bytesWritten : after.bytesWritten = before.bytesWritten + f.bytes node

theorem counted_fail (node : Node Bytes) (report : Report) (w : Warning) :
    Counted .failed node report (report.fail w) := ⟨rfl, rfl, rfl, rfl, rfl, rfl⟩

/-! ## One node

What is asked of the disk for a node is decided by what stood in its way and at
its place when the run started, provided that this is still so. -/

/-- A name that is as it was when the run started: barred if a file stood in the
way, open if not, and with the same entry. -/
structure Unchanged (d₀ : Disk) (base : Place) (names : List Name) (n : Name) (d : Disk) :
    Prop where
  plain : d.Plain (AssetPath.below ⟨names⟩ base) n.text
  barred : blocked d₀ base names = true → d.Barred (AssetPath.below ⟨names⟩ base ++ [n.text])
  opens : blocked d₀ base names = false → d.Opens (AssetPath.below ⟨names⟩ base) n.text
  entry : d.get? (AssetPath.below ⟨names⟩ base ++ [n.text]) =
    d₀.get? (AssetPath.below ⟨names⟩ base ++ [n.text])
  noDevice : ∀ dev, d₀.get? (AssetPath.below ⟨names⟩ base ++ [n.text]) ≠ some (.device dev)

section Node

variable {t : MemoryTree} {config : ExtractConfig} {d₀ : Disk} {base : Place} {root : AssetPath}
  {names : List Name} {n : Name} {r : Run}

theorem ensureDirectory_effect (h : Unchanged d₀ base names n r.disk) {children : List Name}
    (hwanted : ¬ (children = [] ∧ config.emptyDirectories = .skip)) {r' : Run}
    (hr' : r' = ensureDirectory ⟨pathOf (AssetPath.below ⟨names⟩ base ++ [n.text])⟩ r) :
    (fate config d₀ base ⟨names ++ [n]⟩ (.directory children)).Leaves
        (d₀.get? (AssetPath.below ⟨names⟩ base ++ [n.text])) (.directory children)
        (r'.disk.get? (AssetPath.below ⟨names⟩ base ++ [n.text])) ∧
      Counted (fate config d₀ base ⟨names ++ [n]⟩ (.directory children)) (.directory children)
        r.report r'.report := by
  have hne := Disk.place_ne_nil (AssetPath.below ⟨names⟩ base) n.text
  have hfate : fate config d₀ base ⟨names ++ [n]⟩ (.directory children) =
      if blocked d₀ base (names ++ [n]) then .failed
      else if d₀.get? (AssetPath.below ⟨names⟩ base ++ [n.text]) = none then .created
      else .present := by
    rw [fate, if_neg hwanted, AssetPath.below_snoc]
  subst hr'
  cases hblocked : blocked d₀ base names with
  | true =>
      obtain ⟨w, hreport⟩ := ensureDirectory_report_of_barred h.plain (h.barred hblocked)
      rw [hfate, if_pos (blocked_snoc.mpr (Or.inl hblocked)), hreport,
        ensureDirectory_disk_of_barred h.plain (h.barred hblocked)]
      exact ⟨h.entry, counted_fail _ _ w⟩
  | false =>
      have ho := h.opens hblocked
      have hreport := ensureDirectory_report h.plain ho
      rw [ensureDirectory_disk h.plain ho, hreport, h.entry]
      cases he : d₀.get? (AssetPath.below ⟨names⟩ base ++ [n.text]) with
      | none =>
          have hfree : ¬ blocked d₀ base (names ++ [n]) = true := by
            rw [blocked_snoc, hblocked, he]
            simp
          rw [hfate, if_neg hfree, if_pos he]
          exact ⟨Disk.get?_house_of_none hne (h.entry.trans he), rfl, rfl, rfl, rfl, rfl, rfl⟩
      | some e =>
          rw [Disk.house_of_some (h.entry.trans he), h.entry, he]
          cases e with
          | directory =>
              have hfree : ¬ blocked d₀ base (names ++ [n]) = true := by
                rw [blocked_snoc, hblocked, he]
                simp
              rw [hfate, if_neg hfree, if_neg (by rw [he]; exact Option.some_ne_none _)]
              exact ⟨⟨rfl, rfl⟩, rfl, rfl, rfl, rfl, rfl, rfl⟩
          | file number content =>
              rw [hfate, if_pos (blocked_snoc.mpr (Or.inr ⟨number, content, he⟩))]
              exact ⟨rfl, counted_fail _ _ _⟩
          | link target => exact absurd (h.entry.trans he) (h.plain.noLink target)
          | device dev => exact absurd he (h.noDevice dev)

theorem memorySource_kind (t : MemoryTree) (r : Run) (p : AssetPath) :
    (memorySource t).kind r p = t.kind? p := rfl

theorem extractFile_effect (h : Unchanged d₀ base names n r.disk) {path : AssetPath}
    {content : Bytes} (hleaf : t.get? path = some (.leaf content))
    (hdir : d₀.get? (AssetPath.below ⟨names⟩ base ++ [n.text]) ≠ some .directory) {r' : Run}
    (hr' : r' = extractLeaf (memorySource t) config path
      ⟨pathOf (AssetPath.below ⟨names⟩ base ++ [n.text])⟩ r) :
    (fate config d₀ base ⟨names ++ [n]⟩ (.leaf content)).Leaves
        (d₀.get? (AssetPath.below ⟨names⟩ base ++ [n.text])) (.leaf content)
        (r'.disk.get? (AssetPath.below ⟨names⟩ base ++ [n.text])) ∧
      Counted (fate config d₀ base ⟨names ++ [n]⟩ (.leaf content)) (.leaf content)
        r.report r'.report := by
  have hne := Disk.place_ne_nil (AssetPath.below ⟨names⟩ base) n.text
  have hkind : (memorySource t).kind r path = some .file := by
    rw [memorySource_kind, NodeTree.kind?, hleaf]
    rfl
  have hkind' : (memorySource t).kind r path ≠ some .directory := by
    rw [hkind]
    simp
  have hopen : (memorySource t).openAsset (beginLeaf path r) path =
      .ok fun _ => .ofBytes content := by
    show (t.leafAt path).map _ = _
    rw [NodeTree.leafAt, hleaf]
    rfl
  have hreport := extractLeaf_report hkind' config
    ⟨pathOf (AssetPath.below ⟨names⟩ base ++ [n.text])⟩
  have hdisk := extractLeaf_disk (memorySource t) config path
    ⟨pathOf (AssetPath.below ⟨names⟩ base ++ [n.text])⟩ r
  rw [if_neg hkind'] at hdisk
  have hplain : (beginLeaf path r).disk.Plain (AssetPath.below ⟨names⟩ base) n.text := h.plain
  have hfate : fate config d₀ base ⟨names ++ [n]⟩ (.leaf content) =
      if blocked d₀ base names then .failed
      else if config.force = false ∧
        d₀.get? (AssetPath.below ⟨names⟩ base ++ [n.text]) ≠ none then .skipped
      else .copied := by
    rw [fate, AssetPath.below_snoc, List.dropLast_concat]
  rw [hr', hreport, hdisk]
  cases hblocked : blocked d₀ base names with
  | true =>
      rw [hfate, if_pos hblocked, copyLeaf_disk_of_barred hplain (h.barred hblocked)]
      rcases copyLeaf_of_barred (memorySource t) config path hplain (h.barred hblocked) with
        ⟨e, hopen', -⟩ | ⟨_, e, -, hout⟩
      · rw [hopen] at hopen'
        cases hopen'
      · rw [hout]
        exact ⟨h.entry, counted_fail _ _ _⟩
  | false =>
      have ho : (beginLeaf path r).disk.Opens (AssetPath.below ⟨names⟩ base) n.text :=
        h.opens hblocked
      have hentry : (beginLeaf path r).disk.get? (AssetPath.below ⟨names⟩ base ++ [n.text]) =
          d₀.get? (AssetPath.below ⟨names⟩ base ++ [n.text]) := h.entry
      rw [hfate, if_neg (by rw [hblocked]; exact Bool.false_ne_true)]
      by_cases hskip : config.force = false ∧
          d₀.get? (AssetPath.below ⟨names⟩ base ++ [n.text]) ≠ none
      · rw [if_pos hskip, copyLeaf_of_present hplain ho hskip.1 (by rw [hentry]; exact hskip.2)]
        exact ⟨h.entry, rfl, rfl, rfl, rfl, rfl, rfl⟩
      · have hroom : ∀ e, (beginLeaf path r).disk.get?
            (AssetPath.below ⟨names⟩ base ++ [n.text]) = some e →
            ∃ number old, e = .file number old := by
          intro e he
          rw [hentry] at he
          cases e with
          | file number old => exact ⟨number, old, rfl⟩
          | directory => exact absurd he hdir
          | link target => exact absurd (h.entry.trans he) (h.plain.noLink target)
          | device dev => exact absurd he (h.noDevice dev)
        obtain ⟨hout, hkept⟩ := copyLeaf_of_room config hplain ho
          (by rw [hentry]; exact hskip) hroom hopen (fun _ => rfl)
        rw [if_neg hskip, hout, hkept]
        refine ⟨?_, rfl, rfl, rfl, rfl, rfl, rfl⟩
        cases he : (beginLeaf path r).disk.get? (AssetPath.below ⟨names⟩ base ++ [n.text]) with
        | none => exact ⟨_, Disk.get?_keep_of_none hne he content⟩
        | some e =>
            obtain ⟨number, old, rfl⟩ := hroom e he
            exact ⟨number, Disk.get?_keep_of_file hne he content⟩

/-- What the task of a node does, whatever kind of node it is. -/
theorem taskAt_effect (h : Unchanged d₀ base names n r.disk) {node : Node Bytes}
    (hnode : t.get? (root.append ⟨names ++ [n]⟩) = some node)
    (hfile : ∀ content, node = .leaf content →
      d₀.get? (AssetPath.below ⟨names⟩ base ++ [n.text]) ≠ some .directory)
    (hunder : HostPath.under ⟨pathOf base⟩ ⟨names ++ [n]⟩ =
      ⟨pathOf (AssetPath.below ⟨names⟩ base ++ [n.text])⟩) {r' : Run}
    (hr' : r' = (taskAt t root ⟨names ++ [n]⟩).perform (memorySource t) config ⟨pathOf base⟩ r) :
    (fate config d₀ base ⟨names ++ [n]⟩ node).Leaves
        (d₀.get? (AssetPath.below ⟨names⟩ base ++ [n.text])) node
        (r'.disk.get? (AssetPath.below ⟨names⟩ base ++ [n.text])) ∧
      Counted (fate config d₀ base ⟨names ++ [n]⟩ node) node r.report r'.report := by
  cases node with
  | leaf content =>
      rw [taskAt_of_nil (NodeTree.children_of_leaf hnode), Task.perform, hunder] at hr'
      exact extractFile_effect h hnode (hfile content rfl) hr'
  | directory children =>
      have hchildren := NodeTree.children_of_directory hnode
      cases children with
      | cons m ms =>
          rw [taskAt_of_cons hchildren, Task.perform, hunder] at hr'
          exact ensureDirectory_effect h (fun hc => List.cons_ne_nil m ms hc.1) hr'
      | nil =>
          rw [taskAt_of_nil hchildren, Task.perform, hunder] at hr'
          have hkind : (memorySource t).kind r (root.append ⟨names ++ [n]⟩) = some .directory := by
            rw [memorySource_kind, NodeTree.kind?, hnode]
            rfl
          cases hpolicy : config.emptyDirectories with
          | skip =>
              have hdisk := extractLeaf_disk (memorySource t) config
                (root.append ⟨names ++ [n]⟩)
                ⟨pathOf (AssetPath.below ⟨names⟩ base ++ [n.text])⟩ r
              have hreport := extractLeaf_report_of_directory hkind config
                ⟨pathOf (AssetPath.below ⟨names⟩ base ++ [n.text])⟩
              rw [if_pos hkind, hpolicy] at hdisk
              rw [hpolicy] at hreport
              rw [fate, if_pos ⟨rfl, hpolicy⟩, hr', hdisk, hreport]
              exact ⟨h.entry, rfl, rfl, rfl, rfl, rfl, rfl⟩
          | create =>
              have hwanted : ¬ (([] : List Name) = [] ∧ config.emptyDirectories = .skip) := by
                rw [hpolicy]
                simp
              have hleaf : extractLeaf (memorySource t) config (root.append ⟨names ++ [n]⟩)
                  ⟨pathOf (AssetPath.below ⟨names⟩ base ++ [n.text])⟩ r =
                  ensureDirectory ⟨pathOf (AssetPath.below ⟨names⟩ base ++ [n.text])⟩ r := by
                unfold extractLeaf
                rw [hkind, hpolicy]
              rw [hleaf] at hr'
              exact ensureDirectory_effect h hwanted hr'

end Node

/-! ## All nodes -/

/-- What is promised about a tree and the disk that it is laid out on. The
destination has no links below it; no device stands where a node belongs, and no
directory where a file does; and no name or path is too long for the disk. -/
structure Suits (t : MemoryTree) (root : AssetPath) (base : Place) (d : Disk) : Prop where
  free : d.LinkFreeAt base
  noDevice : ∀ q, NodesBelow t root q → ∀ dev, d.get? (q.below base) ≠ some (.device dev)
  files : ∀ q content, t.get? (root.append q) = some (.leaf content) →
    d.get? (q.below base) ≠ some .directory
  shortName : ∀ q, NodesBelow t root q → ∀ n ∈ q.names, n.text.utf8ByteSize ≤ Disk.nameLimit
  shortPath : ∀ q, NodesBelow t root q → (pathOf (q.below base)).utf8ByteSize < Disk.pathLimit

/-- What becomes of a place that may have a node. -/
def fateAt (t : MemoryTree) (config : ExtractConfig) (d : Disk) (base : Place)
    (q : AssetPath) : Fate :=
  match t.get? (config.sourceRoot.append q) with
  | some node => fate config d base q node
  | none => .ignored

/-- What the node at a place adds to the bytes written. -/
def bytesAt (t : MemoryTree) (config : ExtractConfig) (d : Disk) (base : Place)
    (q : AssetPath) : Nat :=
  match t.get? (config.sourceRoot.append q) with
  | some node => (fate config d base q node).bytes node
  | none => 0

/-- The counters of a report for the nodes at some places. -/
structure Tallied (t : MemoryTree) (config : ExtractConfig) (d : Disk) (base : Place)
    (nodes : List AssetPath) (report : Report) : Prop where
  filesCopied : report.filesCopied = nodes.countP (fateAt t config d base · = .copied)
  filesSkipped : report.filesSkipped = nodes.countP (fateAt t config d base · = .skipped)
  directoriesCreated :
    report.directoriesCreated = nodes.countP (fateAt t config d base · = .created)
  nodesFailed : report.nodesFailed = nodes.countP (fateAt t config d base · = .failed)
  leavesUnreadable : report.leavesUnreadable = 0
  bytesWritten : report.bytesWritten = nodes.foldr (bytesAt t config d base · + ·) 0

/-- A run of which the nodes at the places `done` are done. -/
structure Mirroring (t : MemoryTree) (config : ExtractConfig) (d₀ : Disk) (base : Place)
    (known done : List AssetPath) (r : Run) : Prop where
  underway : Underway d₀ base known r
  standing : ∀ p ∈ known, blocked d₀ base p.names = false →
    r.disk.get? (p.below base) = some .directory
  untouched : ∀ place, (∀ q ∈ done, place ≠ q.below base) → r.disk.get? place = d₀.get? place
  laid : ∀ q ∈ done, ∀ node, t.get? (config.sourceRoot.append q) = some node →
    (fate config d₀ base q node).Leaves (d₀.get? (q.below base)) node
      (r.disk.get? (q.below base))
  tallied : Tallied t config d₀ base done r.report

section Steps

variable {t : MemoryTree} {config : ExtractConfig} {d₀ : Disk} {base : Place}
  {known done : List AssetPath} {names : List Name} {n : Name} {r : Run} {node : Node Bytes}

theorem Tallied.cons {report report' : Report} {q : AssetPath}
    (h : Tallied t config d₀ base done report)
    (hnode : t.get? (config.sourceRoot.append q) = some node)
    (hc : Counted (fate config d₀ base q node) node report report') :
    Tallied t config d₀ base (q :: done) report' := by
  have hfate : fateAt t config d₀ base q = fate config d₀ base q node := by
    rw [fateAt, hnode]
  have hbytes : bytesAt t config d₀ base q = (fate config d₀ base q node).bytes node := by
    rw [bytesAt, hnode]
  refine ⟨?_, ?_, ?_, ?_, ?_, ?_⟩
  · rw [List.countP_cons, hc.filesCopied, h.filesCopied, hfate]
    simp only [decide_eq_true_eq]
  · rw [List.countP_cons, hc.filesSkipped, h.filesSkipped, hfate]
    simp only [decide_eq_true_eq]
  · rw [List.countP_cons, hc.directoriesCreated, h.directoriesCreated, hfate]
    simp only [decide_eq_true_eq]
  · rw [List.countP_cons, hc.nodesFailed, h.nodesFailed, hfate]
    simp only [decide_eq_true_eq]
  · rw [hc.leavesUnreadable, h.leavesUnreadable]
  · rw [List.foldr_cons, hc.bytesWritten, h.bytesWritten, hbytes, Nat.add_comm]

/-- A node whose turn comes finds its place as it was. -/
theorem Mirroring.unchanged (h : Mirroring t config d₀ base known done r)
    (hsuits : Suits t config.sourceRoot base d₀) (hknown : (⟨names⟩ : AssetPath) ∈ known)
    (hnode : NodesBelow t config.sourceRoot ⟨names ++ [n]⟩)
    (hnew : (⟨names ++ [n]⟩ : AssetPath) ∉ done) : Unchanged d₀ base names n r.disk := by
  refine ⟨h.underway.free.plain names n, fun hblocked => ?_, fun hblocked => ?_, ?_, fun dev => ?_⟩
  · obtain ⟨a, b, rfl, -, number, content, hfile⟩ := blocked_iff.mp hblocked
    have hbarred : d₀.Barred (AssetPath.below ⟨a ++ b⟩ base ++ [n.text]) := by
      refine .blocked (b := b.map (·.text) ++ [n.text]) ?_ (by simp) hfile rfl
      simp [AssetPath.below]
    exact hbarred.mono h.underway.grown
  · refine ⟨h.standing _ hknown hblocked, ?_, ?_⟩
    · exact hsuits.shortName _ hnode n (by simp)
    · have hshort := hsuits.shortPath _ hnode
      rwa [AssetPath.below_snoc] at hshort
  · refine h.untouched _ fun q hq heq => ?_
    rw [← AssetPath.below_snoc] at heq
    rw [AssetPath.below_injective heq] at hnew
    exact hnew hq
  · rw [← AssetPath.below_snoc]
    exact hsuits.noDevice _ hnode dev

theorem taskAt_place? (t : MemoryTree) (root q : AssetPath) :
    (taskAt t root q).place? = some q := by
  unfold taskAt
  split <;> rfl

theorem Fate.Leaves.directory {q : AssetPath} {before after : Option DiskEntry}
    (h : (fate config d₀ base q node).Leaves before node after)
    (hdir : ∃ m ms, node = .directory (m :: ms)) (hfree : blocked d₀ base q.names = false) :
    after = some .directory := by
  obtain ⟨m, ms, rfl⟩ := hdir
  rw [fate, if_neg (fun hc => List.cons_ne_nil m ms hc.1), hfree, if_neg Bool.false_ne_true] at h
  split at h
  · exact h
  · exact h.2.trans h.1

/-- The task of a node that is not done yet does it. -/
theorem Mirroring.perform (h : Mirroring t config d₀ base known done r)
    (hsuits : Suits t config.sourceRoot base d₀) {q : AssetPath}
    (hw : (taskAt t config.sourceRoot q).Within known)
    (hbelow : NodesBelow t config.sourceRoot q) (hnew : q ∉ done) :
    Mirroring t config d₀ base ((taskAt t config.sourceRoot q).seeTo known) (q :: done)
      ((taskAt t config.sourceRoot q).perform (memorySource t) config ⟨pathOf base⟩ r) := by
  obtain ⟨names, n, rfl, hknown⟩ := hw q (taskAt_place? t _ q)
  obtain ⟨node, hnode⟩ := Option.ne_none_iff_exists'.mp hbelow.2
  have hunchanged := h.unchanged hsuits hknown hbelow hnew
  have hunder := h.underway.free.under ⟨names ++ [n]⟩
  rw [AssetPath.below_snoc] at hunder
  have hlaid := Task.laid h.underway.free (memorySource t) config
    (taskAt_place? t config.sourceRoot ⟨names ++ [n]⟩) (h.underway.opens_or_barred hknown n)
  obtain ⟨hleaves, hcounted⟩ := taskAt_effect hunchanged hnode
    (fun content hc => by
      rw [← AssetPath.below_snoc]
      exact hsuits.files _ content (hnode.trans (congrArg some hc))) hunder rfl
  refine ⟨h.underway.perform _ _ hw, fun p hp hfree => ?_, fun place hother => ?_,
    fun p hp node' hnode' => ?_, h.tallied.cons hnode hcounted⟩
  · by_cases hold : p ∈ known
    · exact hlaid.extends.directory (h.standing p hold hfree)
    · -- Only a directory with children is seen to.
      have hdir : p = ⟨names ++ [n]⟩ ∧ ∃ m ms, node = .directory (m :: ms) := by
        cases hchildren : t.children (config.sourceRoot.append ⟨names ++ [n]⟩) with
        | nil =>
            rw [taskAt_of_nil hchildren] at hp
            exact absurd hp hold
        | cons m ms =>
            rw [taskAt_of_cons hchildren] at hp
            refine ⟨(List.mem_cons.mp hp).resolve_right hold, m, ms, ?_⟩
            cases node with
            | leaf content =>
                rw [NodeTree.children_of_leaf hnode] at hchildren
                cases hchildren
            | directory children =>
                rw [NodeTree.children_of_directory hnode] at hchildren
                rw [hchildren]
      obtain ⟨rfl, hdir⟩ := hdir
      rw [AssetPath.below_snoc]
      exact hleaves.directory hdir hfree
  · rw [hlaid.get?_of_ne (by
      rw [← AssetPath.below_snoc]
      exact hother _ List.mem_cons_self)]
    exact h.untouched place fun p hp => hother p (List.mem_cons_of_mem _ hp)
  · rcases List.mem_cons.mp hp with rfl | hp
    · rw [hnode] at hnode'
      rw [← Option.some.inj hnode', AssetPath.below_snoc]
      exact hleaves
    · have hother : p.below base ≠ AssetPath.below ⟨names⟩ base ++ [n.text] := by
        rw [← AssetPath.below_snoc]
        intro heq
        rw [AssetPath.below_injective heq] at hp
        exact hnew hp
      rw [hlaid.get?_of_ne hother]
      exact h.laid p hp node' hnode'

theorem Mirroring.performAll (h : Mirroring t config d₀ base known done r)
    (hsuits : Suits t config.sourceRoot base d₀) {tasks : List Task}
    (ho : Ordered known tasks)
    (hkinds : ∀ task ∈ tasks, (∃ events, task = .noticed events) ∨
      ∃ q, task = taskAt t config.sourceRoot q)
    (hbelow : ∀ q ∈ places tasks, NodesBelow t config.sourceRoot q)
    (hnodup : (places tasks).Nodup) (hnew : ∀ q ∈ places tasks, q ∉ done) :
    ∃ known', Mirroring t config d₀ base known' ((places tasks).reverse ++ done)
      (performAll (memorySource t) config ⟨pathOf base⟩ tasks r) := by
  induction tasks generalizing known done r with
  | nil => exact ⟨known, h⟩
  | cons task tasks ih =>
      have hkinds' := fun u hu => hkinds u (List.mem_cons_of_mem _ hu)
      rcases hkinds task (by simp) with ⟨events, rfl⟩ | ⟨q, rfl⟩
      · have hplaces : places (.noticed events :: tasks) = places tasks :=
          List.filterMap_cons_none rfl
        rw [hplaces] at hbelow hnodup hnew ⊢
        have hnoted : Mirroring t config d₀ base known done (r.noteAll events) :=
          ⟨⟨h.underway.free, h.underway.grown, h.underway.settled⟩, h.standing, h.untouched,
            h.laid, h.tallied⟩
        exact ih hnoted ho.2 hkinds' hbelow hnodup hnew
      · have hplaces : places (taskAt t config.sourceRoot q :: tasks) = q :: places tasks :=
          List.filterMap_cons_some (taskAt_place? t _ q)
        rw [hplaces] at hbelow hnodup hnew ⊢
        obtain ⟨hfirst, hnodup⟩ := List.nodup_cons.mp hnodup
        have hnext := h.perform hsuits ho.1 (hbelow q (by simp)) (hnew q (by simp))
        rw [List.reverse_cons, List.append_assoc, List.singleton_append]
        refine ih hnext ho.2 hkinds' (fun p hp => hbelow p (List.mem_cons_of_mem _ hp)) hnodup
          fun p hp hdone => ?_
        rcases List.mem_cons.mp hdone with rfl | hdone
        · exact hfirst hp
        · exact hnew p (List.mem_cons_of_mem _ hp) hdone

theorem Tallied.perm {nodes nodes' : List AssetPath} (hperm : nodes.Perm nodes')
    {report : Report} (h : Tallied t config d₀ base nodes report) :
    Tallied t config d₀ base nodes' report := by
  have hbytes : nodes.foldr (bytesAt t config d₀ base · + ·) 0 =
      nodes'.foldr (bytesAt t config d₀ base · + ·) 0 :=
    hperm.foldr_eq' (fun x _ y _ z => Nat.add_left_comm (bytesAt t config d₀ base y)
      (bytesAt t config d₀ base x) z) 0
  exact ⟨h.filesCopied.trans (hperm.countP_eq _), h.filesSkipped.trans (hperm.countP_eq _),
    h.directoriesCreated.trans (hperm.countP_eq _), h.nodesFailed.trans (hperm.countP_eq _),
    h.leavesUnreadable, h.bytesWritten.trans hbytes⟩

end Steps

/-- What a run leaves of a tree in memory: the disk `d`, where it started on
`d₀`, and the report. -/
structure Mirrored (t : MemoryTree) (config : ExtractConfig) (base : Place) (d₀ d : Disk)
    (report : Report) : Prop where
  /-- Every node below the starting node meets its fate. -/
  laid : ∀ q node, q ≠ .root → t.get? (config.sourceRoot.append q) = some node →
    (fate config d₀ base q node).Leaves (d₀.get? (q.below base)) node (d.get? (q.below base))
  /-- A file in the way of a node stays as it is, and nothing comes to stand below it. It is in
  the way of a directory at its place, and of every node below its place. -/
  inTheWay : ∀ a b number content, a ≠ [] → NodesBelow t config.sourceRoot ⟨a ++ b⟩ →
    (b = [] → ∃ names, t.get? (config.sourceRoot.append ⟨a⟩) = some (.directory names)) →
    d₀.get? (AssetPath.below ⟨a⟩ base) = some (.file number content) →
    ∀ more, d.get? (AssetPath.below ⟨a⟩ base ++ more) = d₀.get? (AssetPath.below ⟨a⟩ base ++ more)
  /-- Where no node belongs nothing changes. -/
  frame : ∀ place, (∀ q, NodesBelow t config.sourceRoot q → place ≠ q.below base) →
    d.get? place = d₀.get? place
  /-- Every node below the starting node is counted once. -/
  once : (nodesBelow t config.sourceRoot).Nodup ∧
    ∀ q, q ∈ nodesBelow t config.sourceRoot ↔ NodesBelow t config.sourceRoot q
  tallied : Tallied t config d₀ base (nodesBelow t config.sourceRoot) report

section Ends

variable {t : MemoryTree} {config : ExtractConfig} {d₀ : Disk} {base : Place}

theorem below_append (a : List Name) (q : AssetPath) (more : Place) (base : Place)
    (h : AssetPath.below ⟨a⟩ base ++ more = q.below base) : ∃ b, q.names = a ++ b := by
  simp only [AssetPath.below, List.append_assoc] at h
  obtain ⟨front, back, hq, hfront, -⟩ := List.map_eq_append_iff.mp (List.append_cancel_left h).symm
  exact ⟨back, by rw [hq, map_text_injective hfront]⟩

/-- Where a file is in the way, the fate of a node is to stay as it was. -/
theorem Fate.Leaves.same {q : AssetPath} {node : Node Bytes} {before after : Option DiskEntry}
    (h : (fate config d₀ base q node).Leaves before node after)
    (hblocked : blocked d₀ base q.names = true)
    (hleaf : ∀ content, node = .leaf content → blocked d₀ base q.names.dropLast = true) :
    after = before := by
  cases node with
  | leaf content =>
      rw [fate, if_pos (hleaf content rfl)] at h
      exact h
  | directory names =>
      rw [fate, if_pos hblocked] at h
      split at h
      · exact h
      · exact h

theorem directory_of_nodesBelow (ht : t.Consistent) {a b : List Name}
    (hnode : NodesBelow t config.sourceRoot ⟨a ++ b⟩) (hb : b ≠ []) :
    ∃ names, t.get? (config.sourceRoot.append ⟨a⟩) = some (.directory names) := by
  obtain ⟨n, rest, rfl⟩ := List.exists_cons_of_ne_nil hb
  have hchild : t.get? ((config.sourceRoot.append ⟨a⟩).child n) ≠ none := by
    have hthere := hnode.2
    have hnames : config.sourceRoot.names ++ (a ++ n :: rest) =
        config.sourceRoot.names ++ a ++ [n] ++ rest := by simp
    rw [AssetPath.append, hnames] at hthere
    exact ht.above hthere
  have hmem := (ht.listed _ n).mpr hchild
  cases hget : t.get? (config.sourceRoot.append ⟨a⟩) with
  | none =>
      rw [NodeTree.children_of_none hget] at hmem
      cases hmem
  | some node =>
      cases node with
      | leaf content =>
          rw [NodeTree.children_of_leaf hget] at hmem
          cases hmem
      | directory names => exact ⟨names, rfl⟩

/-- A file in the way of a node, and everything behind it, is as it was. -/
theorem same_behind_file {d : Disk} (ht : t.Consistent)
    (hlaid : ∀ q node, q ≠ .root → t.get? (config.sourceRoot.append q) = some node →
      (fate config d₀ base q node).Leaves (d₀.get? (q.below base)) node (d.get? (q.below base)))
    (hframe : ∀ place, (∀ q, NodesBelow t config.sourceRoot q → place ≠ q.below base) →
      d.get? place = d₀.get? place)
    {a b : List Name} {number : Nat} {content : Bytes} (hne : a ≠ [])
    (hnode : NodesBelow t config.sourceRoot ⟨a ++ b⟩)
    (hdir : b = [] → ∃ names, t.get? (config.sourceRoot.append ⟨a⟩) = some (.directory names))
    (hfile : d₀.get? (AssetPath.below ⟨a⟩ base) = some (.file number content)) (more : Place) :
    d.get? (AssetPath.below ⟨a⟩ base ++ more) = d₀.get? (AssetPath.below ⟨a⟩ base ++ more) := by
  obtain ⟨children, hdir⟩ : ∃ children,
      t.get? (config.sourceRoot.append ⟨a⟩) = some (.directory children) := by
    by_cases hb : b = []
    · exact hdir hb
    · exact directory_of_nodesBelow ht hnode hb
  by_cases hplace : ∃ q, NodesBelow t config.sourceRoot q ∧
      AssetPath.below ⟨a⟩ base ++ more = q.below base
  · obtain ⟨q, hq, hplace⟩ := hplace
    obtain ⟨node, hqnode⟩ := Option.ne_none_iff_exists'.mp hq.2
    obtain ⟨rest, hrest⟩ := below_append a q more base hplace
    rw [hplace]
    refine (hlaid q node hq.1 hqnode).same
      (blocked_iff.mpr ⟨a, rest, hrest, hne, number, content, hfile⟩) fun bytes hbytes => ?_
    have hrest' : rest ≠ [] := by
      rintro rfl
      rw [List.append_nil] at hrest
      obtain ⟨qs⟩ := q
      obtain rfl : qs = a := hrest
      rw [hdir, hbytes] at hqnode
      cases hqnode
    rw [hrest, List.dropLast_append_of_ne_nil hrest']
    exact blocked_iff.mpr ⟨a, rest.dropLast, rfl, hne, number, content, hfile⟩
  · exact hframe _ fun q hq heq => hplace ⟨q, hq, heq⟩

end Ends

/-- The exact outcome of a run over a tree in memory. It ends well, every node
meets the fate that the disk at the start decides, every node is counted once,
and nothing else changes. -/
theorem run_mirrors (t : MemoryTree) (ht : t.Built) (config : ExtractConfig)
    {names : List Name} (hroot : t.get? config.sourceRoot = some (.directory names))
    (dest : Destination) (disk : Disk) (hsuits : Suits t config.sourceRoot dest.place disk) :
    ∃ report, (run (.ofMemory t true) config dest disk).result = .ok report ∧
      Mirrored t config dest.place disk (run (.ofMemory t true) config dest disk).disk report := by
  have hc := ht.consistent
  have hlist := memorySource_list t { disk := disk } config.sourceRoot
  rw [NodeTree.children_of_directory hroot] at hlist
  have hcovers := planRun_covers config dest.path hc hroot (opening config dest disk [])
  have hstart : Mirroring t config disk dest.place [.root] [] (opening config dest disk []) := by
    refine ⟨underway_opening hsuits.free config dest [], fun p hp _ => ?_, fun _ _ => rfl,
      fun q hq => (by cases hq), ⟨rfl, rfl, rfl, rfl, rfl, rfl⟩⟩
    rw [List.mem_singleton.mp hp, AssetPath.below_root]
    exact hsuits.free.directory
  obtain ⟨known, hend⟩ := hstart.performAll hsuits
    (planRun_ordered (memorySource t) config dest.path _ _) hcovers.kinds
    (fun q hq => (hcovers.mem q).mp hq) hcovers.nodup (fun q _ hq => by cases hq)
  rw [List.append_nil] at hend
  have hdone : ∀ q, NodesBelow t config.sourceRoot q → q ∈ (places (planRun (memorySource t) config
      dest.path (names.map (·.text)) (opening config dest disk []))).reverse := fun q hq =>
    List.mem_reverse.mpr ((hcovers.mem q).mpr hq)
  have hrun : run (.ofMemory t true) config dest disk =
      finish (performAll (memorySource t) config dest.path
        (planRun (memorySource t) config dest.path (names.map (·.text))
          (opening config dest disk [])) (opening config dest disk [])) := runLive_of_list hlist
  have hlaid : ∀ q node, q ≠ .root → t.get? (config.sourceRoot.append q) = some node →
      (fate config disk dest.place q node).Leaves (disk.get? (q.below dest.place)) node
        ((run (.ofMemory t true) config dest disk).disk.get? (q.below dest.place)) := by
    intro q node hne hnode
    rw [hrun]
    exact hend.laid q (hdone q ⟨hne, by rw [hnode]; exact Option.some_ne_none _⟩) node hnode
  have hframe : ∀ place, (∀ q, NodesBelow t config.sourceRoot q → place ≠ q.below dest.place) →
      (run (.ofMemory t true) config dest disk).disk.get? place = disk.get? place := by
    intro place hother
    rw [hrun]
    exact hend.untouched place fun q hq =>
      hother q ((hcovers.mem q).mp (List.mem_reverse.mp hq))
  refine ⟨_, by rw [hrun]; rfl, hlaid, fun a b number content hne hnode hdir hfile more =>
      same_behind_file hc hlaid hframe hne hnode hdir hfile more, hframe,
    ⟨nodesBelow_nodup config.sourceRoot hc, fun q => mem_nodesBelow config.sourceRoot⟩, ?_⟩
  exact hend.tallied.perm ((List.reverse_perm _).trans (hcovers.perm config.sourceRoot hc))

/-- The names of a small tree. -/
def dirName : Name := ⟨"d", rfl⟩

def leafName : Name := ⟨"f", rfl⟩

/-- A tree with one directory and one file in it. -/
def smallTree : MemoryTree :=
  (NodeTree.empty.addChild .root dirName (.directory [])).addChild ⟨[dirName]⟩ leafName (.leaf [1])

theorem smallTree_built : smallTree.Built := by
  have hparse : AssetPath.parse "d/f" = .ok ⟨[dirName, leafName]⟩ := by rfl
  refine .file .empty "d/f" [1] ?_
  unfold MemoryTree.insertFile
  rw [hparse]
  rfl

theorem nodesBelow_smallTree :
    nodesBelow smallTree .root = [⟨[dirName]⟩, ⟨[dirName, leafName]⟩] := by decide

theorem smallTree_suits : Suits smallTree .root ["out"] Disk.small := by
  have hnodes : ∀ q, NodesBelow smallTree .root q →
      q = ⟨[dirName]⟩ ∨ q = ⟨[dirName, leafName]⟩ := by
    intro q hq
    have hmem := (mem_nodesBelow .root).mpr hq
    rw [nodesBelow_smallTree] at hmem
    simpa using hmem
  refine ⟨Disk.linkFreeAt_small_out, fun q _ dev => Disk.small_noDevice _ dev,
    fun q content hq => ?_, fun q hq => ?_, fun q hq => ?_⟩
  · have hne : q ≠ .root := by
      rintro rfl
      exact absurd hq (by simp [show smallTree.get? (AssetPath.root.append .root) =
        some (.directory [dirName]) from rfl])
    rcases hnodes q ⟨hne, by rw [hq]; exact Option.some_ne_none _⟩ with rfl | rfl <;> decide
  · rcases hnodes q hq with rfl | rfl <;> decide
  · rcases hnodes q hq with rfl | rfl <;> decide

theorem run_mirrors_small :
    ∃ report, (run (.ofMemory smallTree true) {} ⟨["out"]⟩ Disk.small).result = .ok report ∧
      report.filesCopied = 1 ∧ report.directoriesCreated = 1 := by
  have hroot : smallTree.get? ({} : ExtractConfig).sourceRoot = some (.directory [dirName]) := rfl
  obtain ⟨report, hok, hmirrored⟩ :=
    run_mirrors smallTree smallTree_built {} hroot ⟨["out"]⟩ Disk.small smallTree_suits
  have htallied := hmirrored.tallied
  refine ⟨report, hok, ?_, ?_⟩
  · rw [htallied.filesCopied]
    decide
  · rw [htallied.directoriesCreated]
    decide

end AssetUnpack.Extraction
