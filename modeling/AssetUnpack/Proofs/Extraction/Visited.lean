import AssetUnpack.Proofs.AssetPath
import AssetUnpack.Proofs.Extraction.Aside
import AssetUnpack.Proofs.Source.Answers
import AssetUnpack.Proofs.Source.Walks

/-!
# What a walk over a directory visits

A directory is listed when the walk comes to it, and by then the run may have laid
something out in it. So what a walk visits has to be said of the disk as the run
leaves it, task after task. `Keeps` is what that takes: a property of nodes and one
of disks, such that a disk with its property lists only nodes with theirs, and laying
these out keeps the property of the disk. The walk then visits no other nodes, and
each of them once (`node_keeps`, `children_keeps`).

Two such properties are used. The walk visits nothing new except below the
destination (`keeps_outside`). And where every mirror that is laid out below the
starting node replaces something, it visits nothing new at all (`keeps_old`).
-/

namespace AssetUnpack

namespace Directory

theorem list_nodup {d : Disk} {path : HostPath} (hkeys : d.table.keys.Nodup) {names : List String}
    {events : List Event} (hlist : list d path = (.ok names, events)) : names.Nodup := by
  unfold list at hlist
  split at hlist
  · split at hlist
    · obtain rfl := Except.ok.inj (Prod.mk.inj hlist).1
      exact List.nodup_nil
    · cases (Prod.mk.inj hlist).1
  · next place _ =>
      simp only [List.partition_eq_filter_filter] at hlist
      obtain rfl := Except.ok.inj (Prod.mk.inj hlist).1
      exact (List.mergeSort_perm _ _).nodup_iff.mpr ((Disk.namesIn_nodup hkeys place).filter _)
  · obtain rfl := Except.ok.inj (Prod.mk.inj hlist).1
    exact List.nodup_nil

end Directory

/-- The texts of a listing that are names. -/
def properNames (listed : List String) : List Name :=
  listed.filterMap fun name => (Name.ofString name).toOption

section Names

variable {name : String} {listed : List String} {n : Name}

theorem properNames_of_name (hn : Name.ofString name = .ok n) :
    properNames (name :: listed) = n :: properNames listed :=
  List.filterMap_cons_some (by rw [hn]; rfl)

theorem properNames_of_fault {e : InvalidPath} (hn : Name.ofString name = .error e) :
    properNames (name :: listed) = properNames listed :=
  List.filterMap_cons_none (by rw [hn]; rfl)

theorem mem_properNames : n ∈ properNames listed ↔ n.text ∈ listed := by
  rw [properNames, List.mem_filterMap]
  constructor
  · rintro ⟨name, hmem, hname⟩
    cases hn : Name.ofString name with
    | error e =>
        rw [hn] at hname
        cases hname
    | ok m =>
        rw [hn] at hname
        obtain rfl := Option.some.inj hname
        rwa [AssetPath.text_of_ofString hn]
  · intro hmem
    exact ⟨n.text, hmem, by rw [n.ofString_text]; rfl⟩

end Names

namespace AssetPath

theorem below_append (base q : AssetPath) (root : Place) :
    (base.append q).below root = q.below (base.below root) := by
  simp only [below, append, List.map_append, List.append_assoc]

theorem below_child (q : AssetPath) (n : Name) (base : Place) :
    (q.child n).below base = q.below base ++ [n.text] :=
  below_snoc q.names n base

end AssetPath

namespace Extraction

open Disk (pathOf)

/-! ## What is visited -/

/-- The node that a task lists, opens or mirrors. -/
def Task.node? (start : AssetPath) : Task → Option AssetPath
  | unlistable path _ | leaf path _ => some path
  | directory place => some (start.append place)
  | _ => none

/-- The nodes that some tasks of a run list, open or mirror. -/
def nodes (start : AssetPath) (tasks : List Task) : List AssetPath :=
  tasks.filterMap (Task.node? start)

/-- The nodes that a run visits: the one it starts from, and those of its plan. -/
def visited (s : LiveSource) (config : ExtractConfig) (dest : Destination) (disk : Disk) :
    List AssetPath :=
  config.sourceRoot ::
    match s.list { disk := disk } config.sourceRoot with
    | (.ok (name :: names), events) =>
      nodes config.sourceRoot
        (planRun s config dest.path (name :: names) (opening config dest disk events))
    | _ => []

theorem nodes_append (start : AssetPath) (ts us : List Task) :
    nodes start (ts ++ us) = nodes start ts ++ nodes start us :=
  List.filterMap_append

theorem nodes_directory (start : AssetPath) (events : List Event) (place : AssetPath)
    (ts : List Task) :
    nodes start (.noticed events :: .directory place :: ts) =
      start.append place :: nodes start ts := rfl

theorem visited_of_children {s : LiveSource} {config : ExtractConfig} {dest : Destination}
    {disk : Disk} {name : String} {names : List String} {events : List Event}
    (h : s.list { disk := disk } config.sourceRoot = (.ok (name :: names), events))
    (hd : config.sourceRoot.depth < s.depthLimit) :
    visited s config dest disk =
      config.sourceRoot :: nodes config.sourceRoot
        (planChildren s config dest.path config.sourceRoot hd .root (name :: names)
          (opening config dest disk events)) := by
  unfold visited
  rw [h]
  dsimp only
  rw [planRun, dif_pos hd]

/-! ## What a walk keeps -/

/-- A property of nodes, given relative to the starting node, and one of disks. Where the
disk has it, a directory lists only nodes that have theirs, and laying these out keeps it. -/
structure Keeps (d₀ : Disk) (top dest : Place) (Good : AssetPath → Prop) (Kept : Disk → Prop) :
    Prop where
  lists : ∀ {known : List AssetPath} {r : Run} {q : AssetPath} {n : Name},
    Aside d₀ dest known r → Kept r.disk → r.disk.get? ((q.child n).below top) ≠ none →
    Good (q.child n)
  lays : ∀ {d d' : Disk} {q : AssetPath} {n : Name}, Kept d → Good (q.child n) →
    Laid (q.below dest) n.text d d' → Kept d'

/-- What tasks visit that keep to good nodes of some kind, each of them once, and what they
leave. -/
structure Keeping (start : AssetPath) (Good : AssetPath → Prop) (Kept : Disk → Prop)
    (at_ : AssetPath → Prop) (tasks : List Task) (after : Run) : Prop where
  good : ∀ p ∈ nodes start tasks, ∃ q, p = start.append q ∧ Good q
  apart : Apart at_ (nodes start tasks)
  kept : Kept after.disk

section Keeping

variable {d₀ : Disk} {base : HostPath} {root dest : Place} {start : AssetPath}
  {Good : AssetPath → Prop} {Kept : Disk → Prop} {known : List AssetPath} {r : Run}
  {tasks : List Task}

/-- What a listing shows is good. -/
theorem Keeps.of_list (hk : Keeps d₀ (start.below root) dest Good Kept)
    (hbase : d₀.resolve base = .ok (root, .directory)) (hfree : d₀.LinkFreeAt root)
    (ha : Aside d₀ dest known r) (hkept : Kept r.disk) {place : AssetPath} {listed : List String}
    {events : List Event}
    (hlist : (directorySource base).list r (start.append place) = (.ok listed, events)) (n : Name)
    (hn : n.text ∈ listed) : Good (place.child n) := by
  have hthere := Directory.of_mem_list (ha.resolve hbase) (ha.linkFree root hfree) hlist hn
  refine hk.lists ha hkept ?_
  rw [AssetPath.below_append] at hthere
  rw [AssetPath.below_child]
  exact hthere

variable (config : ExtractConfig)

mutual

theorem node_keeps (hk : Keeps d₀ (start.below root) dest Good Kept)
    (hbase : d₀.resolve base = .ok (root, .directory)) (hfree : d₀.LinkFreeAt root)
    (hkeys : d₀.table.keys.Nodup) {path place : AssetPath} {n : Name}
    (hpath : path = start.append (place.child n)) {known : List AssetPath} {r : Run}
    (ha : Aside d₀ dest known r) (hkept : Kept r.disk) (hknown : place ∈ known)
    (hgood : Good (place.child n)) {tasks : List Task}
    (htasks : tasks = planNode (directorySource base) config ⟨pathOf dest⟩ path (place.child n) r) :
    Keeping start Good Kept path.Under tasks
      (performAll (directorySource base) config ⟨pathOf dest⟩ tasks r) := by
  have hself : ∀ p ∈ [path], ∃ q, p = start.append q ∧ Good q := by
    intro p hp
    rw [List.mem_singleton.mp hp]
    exact ⟨_, hpath, hgood⟩
  -- What a task does for this node keeps what is kept.
  have hlays : ∀ (t : Task) (r' : Run), Aside d₀ dest known r' → Kept r'.disk →
      t.place? = some (place.child n) →
      Kept (t.perform (directorySource base) config ⟨pathOf dest⟩ r').disk :=
    fun t r' ha' hkept' hplace => hk.lays hkept' hgood
      (Task.laid ha'.underway.free _ config hplace (ha'.underway.opens_or_barred hknown n))
  match hlist : (directorySource base).list r path with
  | (.error e, events) =>
      rw [planNode_of_error hlist] at htasks
      rw [htasks]
      exact ⟨hself, Apart.single path, hkept⟩
  | (.ok [], events) =>
      rw [planNode_of_leaf hlist] at htasks
      rw [htasks]
      exact ⟨hself, Apart.single path,
        hlays (.leaf path _) (r.noteAll events) (ha.congr rfl) hkept rfl⟩
  | (.ok (name :: listed), events) =>
      have hd : path.depth < (directorySource base).depthLimit :=
        LiveSource.depth_lt_of_list (by rw [hlist])
      have hnoted : Aside d₀ dest known (r.noteAll events) := ha.congr rfl
      have hwithin : Task.Within known (.directory (place.child n)) :=
        Task.within_of_snoc rfl hknown
      have hgoods := hk.of_list hbase hfree ha hkept (hpath ▸ hlist)
      have hbelow := children_keeps hk hbase hfree hkeys hpath
        (hnoted.perform (directorySource base) config hwithin)
        (hlays (.directory _) _ hnoted hkept rfl) List.mem_cons_self hd
        (Directory.list_nodup (ha.keys hkeys) hlist) hgoods rfl
      rw [planNode_of_children hlist] at htasks
      have hnodes : nodes start tasks = path :: nodes start (planChildren (directorySource base)
          config ⟨pathOf dest⟩ path hd (place.child n) (name :: listed)
          (ensureDirectory (HostPath.under ⟨pathOf dest⟩ (place.child n)) (r.noteAll events))) := by
        rw [htasks, nodes_directory, ← hpath]
      refine ⟨?_, ?_, ?_⟩
      · rw [hnodes]
        intro p hp
        rcases List.mem_cons.mp hp with rfl | hp
        · exact hself _ List.mem_cons_self
        · exact hbelow.good p hp
      · rw [hnodes]
        exact hbelow.apart.node
      · rw [htasks]
        exact hbelow.kept
termination_by (Disk.pathLimit - path.depth, 1, 0)

theorem children_keeps (hk : Keeps d₀ (start.below root) dest Good Kept)
    (hbase : d₀.resolve base = .ok (root, .directory)) (hfree : d₀.LinkFreeAt root)
    (hkeys : d₀.table.keys.Nodup) {parent place : AssetPath} (hparent : parent = start.append place)
    {known : List AssetPath} {r : Run} (ha : Aside d₀ dest known r) (hkept : Kept r.disk)
    (hknown : place ∈ known) (hd : parent.depth < (directorySource base).depthLimit)
    {listed : List String} (hnodup : listed.Nodup)
    (hgood : ∀ n : Name, n.text ∈ listed → Good (place.child n)) {tasks : List Task}
    (htasks : tasks = planChildren (directorySource base) config ⟨pathOf dest⟩ parent hd place
      listed r) :
    Keeping start Good Kept (FromChildren parent (properNames listed)) tasks
      (performAll (directorySource base) config ⟨pathOf dest⟩ tasks r) := by
  match listed with
  | [] =>
      rw [planChildren_nil] at htasks
      rw [htasks]
      exact ⟨nofun, Apart.nil _, hkept⟩
  | name :: listed =>
      obtain ⟨hnew, hnodup'⟩ := List.nodup_cons.mp hnodup
      have hgood' : ∀ n : Name, n.text ∈ listed → Good (place.child n) :=
        fun n hn => hgood n (List.mem_cons_of_mem _ hn)
      cases hn : Name.ofString name with
      | error e =>
          have hfailed : Aside d₀ dest known
              (r.fail (.invalidName parent name e) (.invalidName parent name)) := ha.congr rfl
          have hrest := children_keeps hk hbase hfree hkeys hparent hfailed hkept hknown hd hnodup'
            hgood' rfl
          rw [planChildren_of_fault hd hn] at htasks
          rw [htasks, properNames_of_fault hn]
          exact ⟨hrest.good, hrest.apart, hrest.kept⟩
      | ok n =>
          have htext := AssetPath.text_of_ofString hn
          have hchild : parent.child n = start.append (place.child n) := by
            rw [hparent, AssetPath.append_child]
          have hfirst := node_keeps hk hbase hfree hkeys hchild ha hkept hknown
            (hgood n (by rw [htext]; exact List.mem_cons_self)) rfl
          have hafter := ha.performAll (directorySource base) config
            (planNode_ordered (directorySource base) config ⟨pathOf dest⟩ (parent.child n)
              place.names n r hknown)
          have hrest := children_keeps hk hbase hfree hkeys hparent hafter hfirst.kept hknown hd
            hnodup' hgood' rfl
          rw [planChildren_of_name hd hn] at htasks
          rw [htasks, properNames_of_name hn]
          refine ⟨?_, ?_, ?_⟩
          · rw [nodes_append]
            intro p hp
            rcases List.mem_append.mp hp with hp | hp
            · exact hfirst.good p hp
            · exact hrest.good p hp
          · rw [nodes_append]
            refine hfirst.apart.cons hrest.apart fun hmem => hnew ?_
            rw [← htext]
            exact mem_properNames.mp hmem
          · rw [performAll_append]
            exact hrest.kept
termination_by (Disk.pathLimit - parent.depth, 0, listed.length)
decreasing_by
  · apply Prod.Lex.right
    apply Prod.Lex.right
    simp
  · apply Prod.Lex.left
    have hd' : parent.depth < Disk.pathLimit := hd
    simp only [AssetPath.depth, AssetPath.child, List.length_append, List.length_singleton]
      at hd' ⊢
    omega
  · apply Prod.Lex.right
    apply Prod.Lex.right
    simp

end

/-- What a whole run visits: each node once, and but for the starting node good ones only. -/
theorem visited_keeps {dest : Destination}
    (hk : Keeps d₀ (config.sourceRoot.below root) dest.place Good Kept)
    (hbase : d₀.resolve base = .ok (root, .directory)) (hfree : d₀.LinkFreeAt root)
    (hkeys : d₀.table.keys.Nodup) (hdest : d₀.LinkFreeAt dest.place) (hkept : Kept d₀) :
    (visited (directorySource base) config dest d₀).Nodup ∧
      ∀ p ∈ visited (directorySource base) config dest d₀,
        p = config.sourceRoot ∨ ∃ q, p = config.sourceRoot.append q ∧ Good q := by
  match hlist : (directorySource base).list { disk := d₀ } config.sourceRoot with
  | (.error e, events) | (.ok [], events) =>
      have hlone : visited (directorySource base) config dest d₀ = [config.sourceRoot] := by
        unfold visited
        rw [hlist]
      rw [hlone]
      exact ⟨(Apart.single config.sourceRoot).nodup, fun p hp => Or.inl (List.mem_singleton.mp hp)⟩
  | (.ok (name :: listed), events) =>
      have hstart : config.sourceRoot = config.sourceRoot.append .root :=
        (AssetPath.append_root _).symm
      have hopening := aside_opening hdest config dest events
      have hd := LiveSource.depth_lt_of_list (s := directorySource base) (by rw [hlist])
      have hbelow := children_keeps config hk hbase hfree hkeys hstart hopening hkept
        (List.mem_singleton.mpr rfl) hd (Directory.list_nodup hkeys hlist)
        (hk.of_list hbase hfree hopening hkept (hstart ▸ hlist)) rfl
      rw [visited_of_children hlist hd]
      refine ⟨hbelow.apart.node.nodup, fun p hp => ?_⟩
      rcases List.mem_cons.mp hp with rfl | hp
      · exact Or.inl rfl
      · exact Or.inr (hbelow.good p hp)

/-! ## Nothing new but below the destination -/

theorem keeps_outside (d₀ : Disk) (top dest : Place) :
    Keeps d₀ top dest (fun q => d₀.get? (q.below top) ≠ none ∨ StrictlyBelow dest (q.below top))
      fun _ => True where
  lists {known r q n} ha _ hthere := by
    by_cases hbelow : StrictlyBelow dest ((q.child n).below top)
    · exact Or.inr hbelow
    · exact Or.inl (ha.outside _ hbelow ▸ hthere)
  lays _ _ _ := trivial

/-! ## Nothing new at all -/

/-- Whatever stands below `top` has its mirror outside `top`, or in the place of something. -/
def LaysNothingNew (d : Disk) (top dest : Place) : Prop :=
  ∀ q : AssetPath, d.get? (q.below top) ≠ none → StrictlyBelow top (q.below dest) →
    d.get? (q.below dest) ≠ none

theorem laysNothingNew_of_apart {disk : Disk} {top dest : Place} (h : ¬ top <+: dest)
    (h' : ¬ dest <+: top) : LaysNothingNew disk top dest := by
  rintro q - ⟨names, -, heq⟩
  have htop : top <+: q.below dest := ⟨names, heq.symm⟩
  rcases List.prefix_or_prefix_of_prefix htop (List.prefix_append dest _) with hin | hin
  · exact absurd hin h
  · exact absurd hin h'

theorem laysNothingNew_onto (disk : Disk) (top : Place) : LaysNothingNew disk top top :=
  fun _ hthere _ => hthere

theorem strictlyBelow_child (top : Place) (q : AssetPath) (n : Name) :
    StrictlyBelow top ((q.child n).below top) := by
  rw [AssetPath.below_child]
  exact strictlyBelow_below q.names n top

theorem keeps_old {d₀ : Disk} {top dest : Place} (h : LaysNothingNew d₀ top dest) :
    Keeps d₀ top dest (fun q => d₀.get? (q.below top) ≠ none)
      fun d => ∀ place, StrictlyBelow top place → d.get? place ≠ none → d₀.get? place ≠ none where
  lists {known r q n} _ hkept hthere := hkept _ (strictlyBelow_child top q n) hthere
  lays {d d' q n} hkept hgood hlaid place hbelow hthere := by
    by_cases hhere : place = q.below dest ++ [n.text]
    · rw [← AssetPath.below_child] at hhere
      rw [hhere]
      exact h (q.child n) hgood (hhere ▸ hbelow)
    · rw [hlaid.get?_of_ne hhere] at hthere
      exact hkept place hbelow hthere

/-- The places of a disk below a place. -/
def placesBelow (d : Disk) (top : Place) : List Place :=
  d.table.keys.filter fun place => top.isPrefixOf place && place != top

theorem mem_placesBelow_iff {d : Disk} {top place : Place} :
    place ∈ placesBelow d top ↔ top <+: place ∧ place ≠ top ∧ d.get? place ≠ none := by
  rw [placesBelow, List.mem_filter, Bool.and_eq_true, List.isPrefixOf_iff_prefix, bne_iff_ne]
  constructor
  · intro h
    obtain ⟨hkey, hunder, hne⟩ := h
    refine ⟨hunder, hne, ?_⟩
    by_cases hnil : place = []
    · rw [hnil, Disk.get?_root]
      exact Option.some_ne_none _
    · rw [Disk.get?, if_neg hnil]
      exact Table.mem_keys.mp hkey
  · intro h
    obtain ⟨hunder, hne, hthere⟩ := h
    have hnil : place ≠ [] := by
      rintro rfl
      exact hne (List.prefix_nil.mp hunder).symm
    rw [Disk.get?, if_neg hnil] at hthere
    exact ⟨Table.mem_keys.mpr hthere, hunder, hne⟩

theorem mem_placesBelow {d : Disk} {top : Place} {q : AssetPath} (hroot : q ≠ .root)
    (hthere : d.get? (q.below top) ≠ none) : q.below top ∈ placesBelow d top := by
  refine mem_placesBelow_iff.mpr ⟨List.prefix_append top _, fun heq => hroot ?_, hthere⟩
  have hnil : q.names.map (·.text) = [] := List.append_right_eq_self.mp heq
  exact congrArg AssetPath.mk (List.map_eq_nil_iff.mp hnil)

/-- Where nothing new is laid out below the starting node, what is visited was there, and it
is no more than there was. -/
theorem visited_old {dest : Destination} (hbase : d₀.resolve base = .ok (root, .directory))
    (hfree : d₀.LinkFreeAt root) (hkeys : d₀.table.keys.Nodup) (hdest : d₀.LinkFreeAt dest.place)
    (h : LaysNothingNew d₀ (config.sourceRoot.below root) dest.place) :
    (∀ p ∈ visited (directorySource base) config dest d₀,
        p = config.sourceRoot ∨ d₀.get? (p.below root) ≠ none) ∧
      (visited (directorySource base) config dest d₀).length ≤
        (placesBelow d₀ (config.sourceRoot.below root)).length + 1 := by
  obtain ⟨hnodup, hgood⟩ := visited_keeps config (keeps_old h) hbase hfree hkeys hdest
    fun _ _ hthere => hthere
  refine ⟨fun p hp => (hgood p hp).imp_right ?_, ?_⟩
  · rintro ⟨q, rfl, hthere⟩
    rwa [AssetPath.below_append]
  obtain ⟨rest, hrest⟩ : ∃ rest, visited (directorySource base) config dest d₀ =
    config.sourceRoot :: rest := ⟨_, rfl⟩
  rw [hrest] at hnodup hgood ⊢
  obtain ⟨hnew, hnodup'⟩ := List.nodup_cons.mp hnodup
  have hplaces : (rest.map (·.below root)).Nodup :=
    List.pairwise_map.mpr (hnodup'.imp fun hne heq => hne (AssetPath.below_injective heq))
  have hsubset : rest.map (·.below root) ⊆ placesBelow d₀ (config.sourceRoot.below root) := by
    intro place hplace
    obtain ⟨p, hp, rfl⟩ := List.mem_map.mp hplace
    rcases hgood p (List.mem_cons_of_mem _ hp) with rfl | ⟨q, rfl, hthere⟩
    · exact absurd hp hnew
    · have hroot : q ≠ .root := by
        rintro rfl
        rw [AssetPath.append_root] at hp
        exact hnew hp
      rw [AssetPath.below_append]
      exact mem_placesBelow hroot hthere
  have hle := hplaces.length_le_of_subset hsubset
  rw [List.length_map] at hle
  exact Nat.succ_le_succ hle

end Keeping

end Extraction

end AssetUnpack
