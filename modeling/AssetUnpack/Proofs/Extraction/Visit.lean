import AssetUnpack.Proofs.Extraction.Tasks
import AssetUnpack.Proofs.NodeTree

/-!
# What a run over a tree in memory visits

The source of a consistent index answers from the index alone, so what a run
does can be told from the index. Every node below the starting node gets one
task, a directory with children the task of seeing to it and any other node the
task of laying out a leaf (`taskAt`), and nothing else has a place.

`Covers` says this of a list of tasks and a set of places. A node is covered
together with everything below it, and nodes with one parent are covered one
after the other: their places are apart because their names are.
-/

namespace AssetUnpack

namespace Extraction

/-- The places of the tasks that have one. -/
def places (tasks : List Task) : List AssetPath := tasks.filterMap Task.place?

theorem places_append (ts us : List Task) : places (ts ++ us) = places ts ++ places us :=
  List.filterMap_append

/-- The task of a node, given relative to the starting node. -/
def taskAt (t : MemoryTree) (root q : AssetPath) : Task :=
  if t.children (root.append q) = [] then .leaf (root.append q) q else .directory q

/-- A list of tasks for the nodes at some places, once for each of them. -/
structure Covers (t : MemoryTree) (root : AssetPath) (tasks : List Task)
    (at_ : AssetPath → Prop) : Prop where
  kinds : ∀ task ∈ tasks, (∃ events, task = .noticed events) ∨ ∃ q, task = taskAt t root q
  mem : ∀ q, q ∈ places tasks ↔ at_ q
  nodup : (places tasks).Nodup

/-- The nodes at a place and below it. -/
def NodesFrom (t : MemoryTree) (root q x : AssetPath) : Prop :=
  q.names <+: x.names ∧ t.get? (root.append x) ≠ none

section Tree

variable {t : MemoryTree} {root q : AssetPath} {names : List Name}

theorem Covers.append {ts us : List Task} {at_ at_' : AssetPath → Prop}
    (ht : Covers t root ts at_) (hu : Covers t root us at_') (hapart : ∀ q, at_ q → ¬ at_' q) :
    Covers t root (ts ++ us) fun q => at_ q ∨ at_' q := by
  refine ⟨fun task hmem => ?_, fun q => ?_, ?_⟩
  · rcases List.mem_append.mp hmem with h | h
    · exact ht.kinds task h
    · exact hu.kinds task h
  · rw [places_append, List.mem_append, ht.mem, hu.mem]
  · rw [places_append, List.nodup_append]
    refine ⟨ht.nodup, hu.nodup, fun a ha b hb => ?_⟩
    rintro rfl
    exact hapart a ((ht.mem a).mp ha) ((hu.mem a).mp hb)

theorem Covers.congr {tasks : List Task} {at_ at_' : AssetPath → Prop}
    (h : Covers t root tasks at_) (hiff : ∀ q, at_ q ↔ at_' q) : Covers t root tasks at_' :=
  ⟨h.kinds, fun q => (h.mem q).trans (hiff q), h.nodup⟩

theorem taskAt_of_nil (h : t.children (root.append q) = []) :
    taskAt t root q = .leaf (root.append q) q := if_pos h

theorem taskAt_of_cons {n : Name} {ns : List Name} (h : t.children (root.append q) = n :: ns) :
    taskAt t root q = .directory q := if_neg (by rw [h]; exact List.cons_ne_nil n ns)

theorem covers_noticed (events : List Event) (q : AssetPath) :
    Covers t root [.noticed events, taskAt t root q] fun x => x = q := by
  have hplace : (taskAt t root q).place? = some q := by
    unfold taskAt
    split <;> rfl
  have hplaces : places [.noticed events, taskAt t root q] = [q] := by
    rw [places, List.filterMap_cons_none rfl, List.filterMap_cons_some hplace, List.filterMap_nil]
  refine ⟨fun task hmem => ?_, fun x => ?_, ?_⟩
  · rcases List.mem_cons.mp hmem with rfl | hmem
    · exact Or.inl ⟨events, rfl⟩
    · exact Or.inr ⟨q, List.mem_singleton.mp hmem⟩
  · rw [hplaces, List.mem_singleton]
  · rw [hplaces]
    simp

/-- From a node there are the node itself and the nodes from its children. -/
theorem nodesFrom_iff (ht : t.Consistent) (hnode : t.get? (root.append q) ≠ none)
    (h : t.children (root.append q) = names) (x : AssetPath) :
    (x = q ∨ ∃ n ∈ names, NodesFrom t root (q.child n) x) ↔ NodesFrom t root q x := by
  constructor
  · rintro (rfl | ⟨n, -, ⟨rest, hx⟩, hthere⟩)
    · exact ⟨List.prefix_refl _, hnode⟩
    · refine ⟨⟨n :: rest, ?_⟩, hthere⟩
      rw [← hx]
      simp [AssetPath.child]
  · rintro ⟨⟨rest, hx⟩, hthere⟩
    cases rest with
    | nil =>
        rw [List.append_nil] at hx
        obtain ⟨xs⟩ := x
        obtain ⟨qs⟩ := q
        exact Or.inl (congrArg AssetPath.mk hx.symm)
    | cons n rest =>
        have hchild : t.get? ((root.append q).child n) ≠ none := by
          have hnames : root.names ++ x.names = (root.append q).names ++ [n] ++ rest := by
            simp [AssetPath.append, ← hx]
          rw [AssetPath.append, hnames] at hthere
          exact ht.above hthere
        have hmem := (ht.listed _ n).mpr hchild
        rw [h] at hmem
        exact Or.inr ⟨n, hmem, ⟨rest, by rw [← hx]; simp [AssetPath.child]⟩, hthere⟩

theorem nodesFrom_apart {n m : Name} (hne : n ≠ m) {x : AssetPath}
    (hn : NodesFrom t root (q.child n) x) : ¬ NodesFrom t root (q.child m) x :=
  fun hm => AssetPath.child_apart hne hn.1 hm.1

end Tree

/-! ## The plan -/

/-- A tree in memory that tells what its nodes are, as a run meets it. -/
abbrev memorySource (t : MemoryTree) : LiveSource := .ofSource (.ofMemory t true)

theorem memorySource_list (t : MemoryTree) (r : Run) (p : AssetPath) :
    (memorySource t).list r p = (.ok ((t.children p).map (·.text)), []) := rfl

section Plan

variable {t : MemoryTree} (config : ExtractConfig) (base : HostPath) (root : AssetPath)

mutual

theorem planNode_covers (ht : t.Consistent) (q : AssetPath)
    (hnode : t.get? (root.append q) ≠ none) (r : Run) :
    Covers t root (planNode (memorySource t) config base (root.append q) q r)
      (NodesFrom t root q) := by
  have hlist := memorySource_list t r (root.append q)
  cases hnames : t.children (root.append q) with
  | nil =>
      rw [hnames] at hlist
      rw [planNode_of_leaf hlist, ← taskAt_of_nil hnames]
      exact (covers_noticed [] q).congr fun x => by
        rw [← nodesFrom_iff ht hnode hnames x]
        simp
  | cons n ns =>
      rw [hnames] at hlist
      have hd : (root.append q).depth < (memorySource t).depthLimit :=
        LiveSource.depth_lt_of_list (by rw [hlist]; rfl)
      have hnodup := ht.nodup (root.append q)
      rw [hnames] at hnodup
      have hhead : Covers t root [.noticed [], taskAt t root q] fun x => x = q :=
        covers_noticed [] q
      rw [taskAt_of_cons hnames] at hhead
      have hrest := planChildren_covers ht q hd (n :: ns) hnodup (fun m hm => by
        rw [root.append_child, ← ht.listed, hnames]
        exact hm) (ensureDirectory (base.under q) (r.noteAll []))
      rw [planNode_of_children hlist]
      refine (hhead.append hrest fun x hx => ?_).congr (nodesFrom_iff ht hnode hnames)
      rintro ⟨m, -, ⟨rest, hprefix⟩, -⟩
      rw [hx] at hprefix
      have hlen := congrArg List.length hprefix
      simp only [AssetPath.child, List.length_append, List.length_singleton] at hlen
      omega
termination_by ((memorySource t).depthLimit - (root.append q).depth, 1, 0)

theorem planChildren_covers (ht : t.Consistent) (q : AssetPath)
    (hd : (root.append q).depth < (memorySource t).depthLimit) (names : List Name)
    (hnodup : names.Nodup) (hthere : ∀ n ∈ names, t.get? (root.append (q.child n)) ≠ none)
    (r : Run) :
    Covers t root
      (planChildren (memorySource t) config base (root.append q) hd q (names.map (·.text)) r)
      fun x => ∃ n ∈ names, NodesFrom t root (q.child n) x := by
  match names with
  | [] =>
      rw [List.map_nil, planChildren_nil]
      exact ⟨by simp, by simp [places], by simp [places]⟩
  | n :: names =>
      obtain ⟨hnew, hnodup'⟩ := List.nodup_cons.mp hnodup
      have hfirst := planNode_covers ht (q.child n) (hthere n (by simp)) r
      have hpath : (⟨(root.append q).names ++ [n]⟩ : AssetPath) = root.append (q.child n) :=
        (root.append_child q n).symm
      have hrest := planChildren_covers ht q hd names hnodup'
        (fun m hm => hthere m (List.mem_cons_of_mem _ hm))
        (performAll (memorySource t) config base
          (planNode (memorySource t) config base (root.append (q.child n)) (q.child n) r) r)
      rw [List.map_cons, planChildren_of_name hd (Name.ofString_text n), hpath]
      refine (hfirst.append hrest fun x hx => ?_).congr fun x => ?_
      · rintro ⟨m, hm, hx'⟩
        exact nodesFrom_apart (fun heq => hnew (by rw [heq]; exact hm)) hx hx'
      · simp
termination_by ((memorySource t).depthLimit - (root.append q).depth, 0, names.length)
decreasing_by
  · apply Prod.Lex.left
    simp only [AssetPath.depth, AssetPath.append, AssetPath.child, List.length_append,
      List.length_singleton] at hd ⊢
    omega
  · apply Prod.Lex.right
    apply Prod.Lex.right
    simp

end

/-- The nodes below the starting node. -/
def NodesBelow (t : MemoryTree) (root x : AssetPath) : Prop :=
  x ≠ .root ∧ t.get? (root.append x) ≠ none

theorem nodesBelow_iff (ht : t.Consistent) {names : List Name}
    (hroot : t.get? root = some (.directory names)) (x : AssetPath) :
    (∃ n ∈ names, NodesFrom t root (AssetPath.root.child n) x) ↔ NodesBelow t root x := by
  have hnode : t.get? (root.append .root) ≠ none := by
    rw [root.append_root, hroot]
    exact Option.some_ne_none _
  have hnames : t.children (root.append .root) = names := by
    rw [root.append_root]
    exact NodeTree.children_of_directory hroot
  have hfrom := nodesFrom_iff ht hnode hnames x
  constructor
  · rintro ⟨n, hn, ⟨rest, hx⟩, hthere⟩
    refine ⟨?_, hthere⟩
    rintro rfl
    simp [AssetPath.root, AssetPath.child] at hx
  · rintro ⟨hne, hthere⟩
    exact (hfrom.mpr ⟨⟨x.names, by simp [AssetPath.root]⟩, hthere⟩).resolve_left hne

/-- A run from a directory visits every node below it. -/
theorem planRun_covers (ht : t.Consistent) {names : List Name}
    (hroot : t.get? config.sourceRoot = some (.directory names)) (r : Run) :
    Covers t config.sourceRoot
      (planRun (memorySource t) config base (names.map (·.text)) r)
      (NodesBelow t config.sourceRoot) := by
  have hbelow := nodesBelow_iff config.sourceRoot ht hroot
  cases names with
  | nil =>
      -- An empty directory to start from: there is nothing to extract, and nothing is.
      have hkind : (memorySource t).kind r config.sourceRoot = some .directory := by
        show (if true = true then t.kind? config.sourceRoot else none) = _
        rw [if_pos rfl, NodeTree.kind?, hroot]
        rfl
      have hplan : planRun (memorySource t) config base [] r =
          [.noticed [.nothingToExtract config.sourceRoot]] := by
        unfold planRun
        cases config.sourceRoot.fileName? with
        | none => rfl
        | some name => simp only [if_pos hkind]
      rw [List.map_nil, hplan]
      have hplaces : places [.noticed [.nothingToExtract config.sourceRoot]] = [] := by
        rw [places, List.filterMap_cons_none rfl, List.filterMap_nil]
      refine ⟨fun task hmem => Or.inl ⟨_, List.mem_singleton.mp hmem⟩, fun x => ?_, ?_⟩
      · rw [hplaces, ← hbelow]
        simp
      · rw [hplaces]
        exact List.nodup_nil
  | cons n ns =>
      have hnames := NodeTree.children_of_directory hroot
      have hnodup := ht.nodup config.sourceRoot
      rw [hnames] at hnodup
      have hlist := memorySource_list t r config.sourceRoot
      rw [hnames] at hlist
      have hd : config.sourceRoot.depth < (memorySource t).depthLimit :=
        LiveSource.depth_lt_of_list (by rw [hlist]; rfl)
      have hplan : planRun (memorySource t) config base ((n :: ns).map (·.text)) r =
          planChildren (memorySource t) config base config.sourceRoot hd .root
            ((n :: ns).map (·.text)) r := by
        rw [List.map_cons, planRun, dif_pos hd]
      have hthere : ∀ m ∈ n :: ns,
          t.get? (config.sourceRoot.append (AssetPath.root.child m)) ≠ none := by
        intro m hm
        rw [AssetPath.append_child, AssetPath.append_root, ← ht.listed, hnames]
        exact hm
      have hcovers := planChildren_covers config base config.sourceRoot ht .root
        (by rw [AssetPath.append_root]; exact hd) (n :: ns) hnodup hthere r
      rw [hplan]
      simp only [AssetPath.append_root] at hcovers
      exact hcovers.congr hbelow

/-- The nodes below a starting node as a list, in the order of the index. -/
def nodesBelow (t : MemoryTree) (root : AssetPath) : List AssetPath :=
  (t.nodes.keys.filterMap (·.stripBase? root)).filter (· ≠ .root)

theorem mem_nodesBelow {x : AssetPath} : x ∈ nodesBelow t root ↔ NodesBelow t root x := by
  have hkey : (∃ p ∈ t.nodes.keys, p.stripBase? root = some x) ↔
      t.get? (root.append x) ≠ none := by
    constructor
    · rintro ⟨p, hp, hstrip⟩
      rw [← AssetPath.stripBase?_eq_some.mp hstrip]
      exact Table.mem_keys.mp hp
    · intro h
      exact ⟨_, Table.mem_keys.mpr h, AssetPath.stripBase?_eq_some.mpr rfl⟩
  rw [nodesBelow, List.mem_filter, List.mem_filterMap, hkey]
  simp [NodesBelow, and_comm]

theorem nodesBelow_nodup (ht : t.Consistent) : (nodesBelow t root).Nodup := by
  refine List.Pairwise.filter _
    (List.Pairwise.filterMap _ (fun p q hpq a ha b hb => ?_) ht.keys)
  rintro rfl
  exact hpq ((AssetPath.stripBase?_eq_some.mp ha).trans (AssetPath.stripBase?_eq_some.mp hb).symm)

theorem Covers.perm (ht : t.Consistent) {tasks : List Task}
    (h : Covers t root tasks (NodesBelow t root)) : (places tasks).Perm (nodesBelow t root) := by
  rw [List.perm_ext_iff_of_nodup h.nodup (nodesBelow_nodup root ht)]
  intro x
  rw [h.mem, mem_nodesBelow]

end Plan

end Extraction

end AssetUnpack
