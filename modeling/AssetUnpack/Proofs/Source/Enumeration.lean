import AssetUnpack.Proofs.NodeTree.Additions
import AssetUnpack.Proofs.Source.Indexes

/-!
# A listing enumerates the nodes of a tree

A listing goes by names alone. It enters what a directory lists, and what those
directories list, and stops where nothing is listed. That it finds all nodes below
its starting point is a matter of the index: every node but the root is listed by
the directory above it, so whatever lies deeper can be reached one name at a time.
That it finds nothing twice is one as well, for a name is listed once.

What is found stands in preorder. An entry is followed by what is below it, and that
part of the list is again a listing, of the directory that the entry is for
(`Preorder.cut`). So whatever is shown of a whole listing holds of each of its parts,
and the facts about one entry, its subtree, its parent and its siblings, are facts
about where the listing is cut.
-/

namespace AssetUnpack

namespace AssetPath

variable {p q x : AssetPath} {n : Name}

theorem parent?_eq_some : x.parent? = some p ↔ ∃ n, x = p.child n := by
  constructor
  · intro h
    obtain ⟨xs⟩ := x
    rcases List.eq_nil_or_concat' xs with rfl | ⟨above, n, rfl⟩
    · cases h
    · have habove : (⟨above⟩ : AssetPath) = p :=
        Option.some.inj ((parent?_child ⟨above⟩ n).symm.trans h)
      rw [← habove]
      exact ⟨n, rfl⟩
  · intro h
    obtain ⟨n, rfl⟩ := h
    exact parent?_child p n

end AssetPath

namespace Manifest

theorem cut_append {β : Type} {l m before after : List β} {e : β}
    (h : l ++ m = before ++ e :: after) :
    (∃ c, l = before ++ e :: c ∧ after = c ++ m) ∨
      ∃ c, before = l ++ c ∧ m = c ++ e :: after := by
  rcases List.append_eq_append_iff.mp h with ⟨c, hbefore, hm⟩ | ⟨c, hl, hafter⟩
  · exact Or.inr ⟨c, hbefore, hm⟩
  cases c with
  | nil =>
      rw [List.append_nil] at hl
      exact Or.inr ⟨[], by rw [List.append_nil, hl], hafter.symm⟩
  | cons e' c =>
      obtain ⟨rfl, htail⟩ := List.cons.inj hafter
      exact Or.inl ⟨c, hl, htail⟩

/-- The names of the entries right below a path, in their order. -/
def namesIn (q : AssetPath) (es : List ManifestEntry) : List Name :=
  es.filterMap fun e => if e.path.parent? = some q then e.path.fileName? else none

theorem namesIn_append (q : AssetPath) (es es' : List ManifestEntry) :
    namesIn q (es ++ es') = namesIn q es ++ namesIn q es' := List.filterMap_append

theorem namesIn_of_elsewhere {q : AssetPath} {es : List ManifestEntry}
    (h : ∀ e ∈ es, e.path.parent? ≠ some q) : namesIn q es = [] :=
  List.filterMap_eq_nil_iff.mpr fun e he => if_neg (h e he)

namespace Preorder

variable {below : AssetPath → List Name} {kind : AssetPath → Option NodeKind} {q : AssetPath}
  {names : List Name} {es before after : List ManifestEntry} {e : ManifestEntry}

theorem within (h : Preorder below kind q names es) : ∀ e ∈ es, FromChildren q names e.path := by
  induction h with
  | nil q => exact nofun
  | @cons q n names inside rest hinside hrest ih ih' =>
      intro e he
      rcases List.mem_cons.mp he with rfl | he
      · exact ⟨n, List.mem_cons_self, AssetPath.under_refl _⟩
      rcases List.mem_append.mp he with he | he
      · obtain ⟨m, -, hm⟩ := ih e he
        exact ⟨n, List.mem_cons_self, AssetPath.under_of_child hm⟩
      · obtain ⟨m, hm, hunder⟩ := ih' e he
        exact ⟨m, List.mem_cons_of_mem _ hm, hunder⟩

theorem kind_eq (h : Preorder below kind q names es) : ∀ e ∈ es, e.kind = kind e.path := by
  induction h with
  | nil q => exact nofun
  | cons hinside hrest ih ih' =>
      intro e he
      rcases List.mem_cons.mp he with rfl | he
      · rfl
      · exact (List.mem_append.mp he).elim (ih e) (ih' e)

/-- What comes from another child of the same path lies neither below a path that
comes from this one nor above it. -/
theorem apart_from_child (h : Preorder below kind q names es) {n : Name} (hnew : n ∉ names)
    {p : AssetPath} (hp : (q.child n).Under p) :
    ∀ x ∈ es, ¬ p.Under x.path ∧ ¬ x.path.Under p := by
  intro x hx
  obtain ⟨m, hm, hxm⟩ := h.within x hx
  have hne : n ≠ m := by
    intro heq
    rw [heq] at hnew
    exact hnew hm
  constructor
  · intro hunder
    exact AssetPath.child_apart hne (hp.trans hunder) hxm
  · intro hunder
    exact AssetPath.child_apart hne hp (hxm.trans hunder)

/-- Behind an entry stands the listing of what is below it, and nothing else in the
list is below it. -/
theorem cut (h : Preorder below kind q names es) (hbelow : ∀ p, (below p).Nodup)
    (hnames : names.Nodup) (hes : es = before ++ e :: after) :
    ∃ inside rest, after = inside ++ rest ∧ Preorder below kind e.path (below e.path) inside ∧
      ∀ x ∈ before ++ rest, ¬ e.path.Under x.path := by
  induction h generalizing before after with
  | nil q => exact absurd hes.symm (by simp)
  | @cons q n names inside rest hinside hrest ih ih' =>
      obtain ⟨hnew, hnames'⟩ := List.nodup_cons.mp hnames
      rcases List.cons_eq_append_iff.mp hes with ⟨rfl, hcons⟩ | ⟨before', rfl, hsplit⟩
      · obtain ⟨rfl, rfl⟩ := List.cons.inj hcons
        exact ⟨inside, rest, rfl, hinside,
          fun x hx => (hrest.apart_from_child hnew (AssetPath.under_refl _) x hx).1⟩
      rcases cut_append hsplit with ⟨c, hleft, rfl⟩ | ⟨c, rfl, hright⟩
      -- The entry is below the first child: the others come behind its subtree.
      · obtain ⟨inside', rest', rfl, hpart, hnot⟩ := ih (hbelow _) hleft
        obtain ⟨m, -, hm⟩ := hinside.within e (by rw [hleft]; simp)
        refine ⟨inside', rest' ++ rest, List.append_assoc _ _ _, hpart, fun x hx => ?_⟩
        rw [List.cons_append, ← List.append_assoc] at hx
        rcases List.mem_cons.mp hx with rfl | hx
        · exact fun hunder => AssetPath.not_under_child _ m (hm.trans hunder)
        rcases List.mem_append.mp hx with hx | hx
        · exact hnot x hx
        · exact (hrest.apart_from_child hnew (AssetPath.under_of_child hm) x hx).1
      -- It comes from another child: the whole first subtree stands in front.
      · obtain ⟨inside', rest', rfl, hpart, hnot⟩ := ih' hnames' hright
        have he : e ∈ rest := by
          rw [hright]
          simp
        refine ⟨inside', rest', rfl, hpart, fun x hx => ?_⟩
        rw [List.cons_append, List.append_assoc] at hx
        rcases List.mem_cons.mp hx with rfl | hx
        · exact (hrest.apart_from_child hnew (AssetPath.under_refl _) e he).2
        rcases List.mem_append.mp hx with hx | hx
        · obtain ⟨m, -, hm⟩ := hinside.within x hx
          exact (hrest.apart_from_child hnew (AssetPath.under_of_child hm) e he).2
        · exact hnot x hx

/-- Right below the starting point an entry has one of the names there, and further
down one that the entry above it lists. -/
theorem parent (h : Preorder below kind q names es) (hes : es = before ++ e :: after) :
    ∃ above n, e.path = above.child n ∧
      (above = q ∧ n ∈ names ∨ ⟨above, kind above⟩ ∈ before ∧ n ∈ below above) := by
  induction h generalizing before after with
  | nil q => exact absurd hes.symm (by simp)
  | @cons q n names inside rest hinside hrest ih ih' =>
      rcases List.cons_eq_append_iff.mp hes with ⟨rfl, hcons⟩ | ⟨before', rfl, hsplit⟩
      · obtain ⟨rfl, -⟩ := List.cons.inj hcons
        exact ⟨q, n, rfl, Or.inl ⟨rfl, List.mem_cons_self⟩⟩
      rcases cut_append hsplit with ⟨c, hleft, -⟩ | ⟨c, rfl, hright⟩
      · obtain ⟨above, m, he, hfrom⟩ := ih hleft
        refine ⟨above, m, he, Or.inr ?_⟩
        rcases hfrom with ⟨rfl, hm⟩ | ⟨hbefore, hm⟩
        · exact ⟨List.mem_cons_self, hm⟩
        · exact ⟨List.mem_cons_of_mem _ hbefore, hm⟩
      · obtain ⟨above, m, he, hfrom⟩ := ih' hright
        refine ⟨above, m, he, hfrom.imp ?_ ?_⟩
        · exact fun hm => ⟨hm.1, List.mem_cons_of_mem _ hm.2⟩
        · exact fun hm => ⟨List.mem_cons_of_mem _ (List.mem_append_right _ hm.1), hm.2⟩

theorem namesIn_start (h : Preorder below kind q names es) : namesIn q es = names := by
  induction h with
  | nil q => rfl
  | @cons q n names inside rest hinside hrest ih ih' =>
      have hself : namesIn q [⟨q.child n, kind (q.child n)⟩] = [n] := by
        simp [namesIn, AssetPath.parent?_child, AssetPath.fileName?_child]
      have hdeep : namesIn q inside = [] := by
        refine namesIn_of_elsewhere fun e he hparent => ?_
        obtain ⟨k, hk⟩ := AssetPath.parent?_eq_some.mp hparent
        obtain ⟨m, -, hm⟩ := hinside.within e he
        rw [hk] at hm
        have hle := List.IsPrefix.length_le hm
        simp only [AssetPath.child, List.length_append, List.length_singleton] at hle
        omega
      rw [← List.singleton_append, ← List.append_assoc, namesIn_append, namesIn_append, hself,
        hdeep, ih']
      rfl

theorem namesIn_of_mem (h : Preorder below kind q names es) (hbelow : ∀ p, (below p).Nodup)
    (hnames : names.Nodup) (he : e ∈ es) : namesIn e.path es = below e.path := by
  obtain ⟨before, after, hes⟩ := List.append_of_mem he
  obtain ⟨inside, rest, rfl, hpart, hnot⟩ := h.cut hbelow hnames hes
  have helsewhere : ∀ x ∈ before ++ rest, x.path.parent? ≠ some e.path := by
    intro x hx hparent
    obtain ⟨n, hn⟩ := AssetPath.parent?_eq_some.mp hparent
    refine hnot x hx ?_
    rw [hn]
    exact AssetPath.under_of_child (AssetPath.under_refl _)
  have hself : namesIn e.path [e] = [] := by
    refine namesIn_of_elsewhere fun x hx hparent => ?_
    rw [List.mem_singleton.mp hx] at hparent
    obtain ⟨n, hn⟩ := AssetPath.parent?_eq_some.mp hparent
    exact AssetPath.child_ne_self _ n hn.symm
  have hbefore := namesIn_of_elsewhere fun x hx => helsewhere x (List.mem_append_left _ hx)
  have hrest := namesIn_of_elsewhere fun x hx => helsewhere x (List.mem_append_right _ hx)
  rw [hes, ← List.singleton_append, namesIn_append, namesIn_append, namesIn_append, hbefore,
    hself, hpart.namesIn_start, hrest, List.append_nil]
  rfl

end Preorder

theorem totals_of_known {m : Manifest} (h : ∀ e ∈ m.entries, e.kind ≠ none) :
    m.totalFiles + m.totalDirectories = m.totalEntries := by
  have hdirectories : m.totalDirectories =
      (m.entries.filter fun e => !decide (e.kind = some .file)).length := by
    refine congrArg List.length (List.filter_congr fun e he => ?_)
    cases hk : e.kind with
    | none => exact absurd hk (h e he)
    | some k => cases k <;> rfl
  rw [hdirectories]
  exact (List.length_eq_length_filter_add _).symm

/-! ## The listing of an index -/

/-- A manifest that has the nodes of an index below its starting point, each once, with
what is below a node right behind it. -/
structure Enumerates {α : Type} (m : Manifest) (t : NodeTree α) (s : Source) (disk : Disk) :
    Prop where
  entries : ∀ p k, ⟨p, k⟩ ∈ m.entries ↔
    NodeTree.Above m.root p ∧ t.get? p ≠ none ∧ s.kind disk p = k
  once : (m.entries.map (·.path)).Nodup
  nothingFailed : m.nodesFailed = 0
  totals : m.totalFiles + m.totalDirectories = m.totalEntries
  subtrees : ∀ before e after, m.entries = before ++ e :: after →
    ∃ inside rest, after = inside ++ rest ∧ (∀ x ∈ inside, e.path.Under x.path) ∧
      ∀ x ∈ before ++ rest, ¬ e.path.Under x.path
  /-- Nodes with one parent come in the order in which the source lists them. -/
  siblings : ∀ q, m.root.Under q →
    (s.list disk q).1 = .ok ((namesIn q m.entries).map (·.text))
  parents : ∀ before e after, m.entries = before ++ e :: after →
    ∃ above, e.path.parent? = some above ∧
      (above = m.root ∨ ⟨above, some .directory⟩ ∈ before)

section Index

variable {α : Type} {t : NodeTree α} {q root x : AssetPath} {names : List Name}
  {es : List ManifestEntry} {e : ManifestEntry}

/-- Whatever node is to be reached from the children of a path is reached. -/
theorem Preorder.complete (h : Preorder t.children t.kind? q names es) (ht : t.Consistent)
    (hnode : t.get? x ≠ none) (hx : FromChildren q names x) : ⟨x, t.kind? x⟩ ∈ es := by
  induction h with
  | nil q =>
      obtain ⟨n, hn, -⟩ := hx
      cases hn
  | @cons q n names inside rest hinside hrest ih ih' =>
      obtain ⟨m, hm, hunder⟩ := hx
      rcases List.mem_cons.mp hm with rfl | hm
      · by_cases heq : q.child m = x
        · rw [heq]
          exact List.mem_cons_self
        -- On the way down to the node the next name is listed too.
        · obtain ⟨k, hk⟩ := NodeTree.above_iff.mp ⟨hunder, heq⟩
          have hlisted : k ∈ t.children (q.child m) :=
            (ht.listed _ k).mpr (ht.ne_none_of_onWay hnode hk)
          exact List.mem_cons_of_mem _ (List.mem_append_left _ (ih ⟨k, hlisted, hk⟩))
      · exact List.mem_cons_of_mem _ (List.mem_append_right _ (ih' ⟨m, hm, hunder⟩))

theorem Preorder.sound (h : Preorder t.children t.kind? root (t.children root) es)
    (ht : t.Consistent) (he : e ∈ es) : t.get? e.path ≠ none := by
  obtain ⟨before, after, hes⟩ := List.append_of_mem he
  obtain ⟨above, n, hpath, hfrom⟩ := h.parent hes
  rw [hpath, ← ht.listed]
  rcases hfrom with ⟨rfl, hn⟩ | ⟨-, hn⟩
  · exact hn
  · exact hn

theorem Preorder.mem_iff (h : Preorder t.children t.kind? root (t.children root) es)
    (ht : t.Consistent) {k : Option NodeKind} :
    ⟨x, k⟩ ∈ es ↔ NodeTree.Above root x ∧ t.get? x ≠ none ∧ t.kind? x = k := by
  constructor
  · intro he
    obtain ⟨n, -, hn⟩ := h.within _ he
    exact ⟨NodeTree.above_iff.mpr ⟨n, hn⟩, h.sound ht he, (h.kind_eq _ he).symm⟩
  · intro hx
    obtain ⟨habove, hnode, rfl⟩ := hx
    obtain ⟨n, hn⟩ := NodeTree.above_iff.mp habove
    exact h.complete ht hnode ⟨n, (ht.listed root n).mpr (ht.ne_none_of_onWay hnode hn), hn⟩

theorem Preorder.namesIn_eq (h : Preorder t.children t.kind? root (t.children root) es)
    (ht : t.Consistent) (hq : root.Under q) : namesIn q es = t.children q := by
  by_cases hroot : root = q
  · rw [← hroot]
    exact h.namesIn_start
  cases hnode : t.get? q with
  | some node =>
      have hentry := (h.mem_iff ht).mpr ⟨⟨hq, hroot⟩, by rw [hnode]; simp, rfl⟩
      exact h.namesIn_of_mem ht.nodup (ht.nodup root) hentry
  | none =>
      rw [NodeTree.children_of_none hnode]
      refine namesIn_of_elsewhere fun e he hparent => ?_
      obtain ⟨n, hn⟩ := AssetPath.parent?_eq_some.mp hparent
      refine h.sound ht he (Decidable.byContradiction fun hsome => ?_)
      rw [hn] at hsome
      exact ht.ne_none_of_onWay hsome ((NodeTree.onWay_refl q).child n) hnode

theorem Preorder.enumerates {s : Source} {disk : Disk}
    (h : Preorder t.children t.kind? root (t.children root) es) (ht : t.Consistent)
    (hlist : ∀ p, s.list disk p = (.ok ((t.children p).map (·.text)), []))
    (hkind : ∀ p, s.kind disk p = t.kind? p) :
    Enumerates { root := root, entries := es } t s disk where
  entries p k := by
    rw [hkind]
    exact h.mem_iff ht
  once := (h.apart ht.nodup (ht.nodup root)).nodup
  nothingFailed := rfl
  totals := by
    refine totals_of_known fun e he => ?_
    rw [h.kind_eq e he]
    exact NodeTree.kind?_ne_none.mpr (h.sound ht he)
  subtrees before e after hes := by
    obtain ⟨inside, rest, hafter, hpart, hnot⟩ := h.cut ht.nodup (ht.nodup root) hes
    refine ⟨inside, rest, hafter, fun x hx => ?_, hnot⟩
    obtain ⟨n, -, hn⟩ := hpart.within x hx
    exact AssetPath.under_of_child hn
  siblings q hq := by
    rw [hlist, h.namesIn_eq ht hq]
  parents before e after hes := by
    obtain ⟨above, n, hpath, hfrom⟩ := h.parent hes
    refine ⟨above, AssetPath.parent?_eq_some.mpr ⟨n, hpath⟩, hfrom.imp And.left ?_⟩
    intro hlisted
    obtain ⟨hbefore, hn⟩ := hlisted
    rwa [NodeTree.kind?_eq_directory.mpr ⟨_, NodeTree.directory_of_mem hn⟩] at hbefore

end Index

end Manifest

/-- Every listing of a source is done and has the nodes of an index. -/
def NodeTree.ListedBy {α : Type} (t : NodeTree α) (s : Source) : Prop :=
  ∀ disk root, ∃ m, (Manifest.ofSource s disk root).1 = .ok m ∧ m.root = root ∧
    m.Enumerates t s disk

namespace Source

section Reads

variable {α : Type} {s : Source} {t : NodeTree α}
  {give : Disk → Bool → AssetPath → α → Except IoError Content}

/-- A listing need not ask for the kind of what has children: only a directory has. -/
theorem Reads.takenFor_eq (hs : s.Reads t give) (disk : Disk) :
    Manifest.takenFor s disk t.children = t.kind? := by
  funext p
  unfold Manifest.takenFor
  split
  · exact hs.kind disk p
  · next hne =>
      obtain ⟨n, hn⟩ := List.exists_mem_of_ne_nil _ hne
      exact (NodeTree.kind?_eq_directory.mpr ⟨_, NodeTree.directory_of_mem hn⟩).symm

theorem Reads.listedBy (hs : s.Reads t give) (ht : t.Consistent) : t.ListedBy s := by
  intro disk root
  obtain ⟨es, hes, hm⟩ := Manifest.ofSource_preorder (hs.list disk) root
  rw [hs.takenFor_eq disk] at hes
  exact ⟨_, hm, rfl, hes.enumerates ht (hs.list disk) (hs.kind disk)⟩

end Reads

/-- Whatever calls are made on a tree in memory, and whatever a bundle or a package
holds, a listing from any path enumerates what the index has below that path. -/
theorem listings_enumerate :
    (∀ calls, (MemoryTree.after calls).ListedBy (.ofMemory (MemoryTree.after calls) true)) ∧
    (∀ input scope t, (Tar.load input scope).1 = .ok t → t.ListedBy (.ofMemory t true)) ∧
    (∀ bytes scope p, (Zip.Package.open bytes scope).1 = .ok p → ∀ later,
      p.tree.ListedBy (.ofZip p later)) := by
  refine ⟨fun calls => ?_, fun input scope t hload => ?_, fun bytes scope p hopen later => ?_⟩
  · exact (reads_ofMemory _).listedBy (MemoryTree.after_built calls).consistent
  · exact (reads_ofMemory t).listedBy (Tar.load_built hload).consistent
  · exact (Zip.reads_ofZip p later).listedBy (Zip.open_consistent hopen)

theorem listings_enumerate_small :
    (MemoryTree.after smallCalls).ListedBy (.ofMemory (MemoryTree.after smallCalls) true) ∧
      (∃ t, (Tar.load (Tar.inputOf Tar.small false) .root).1 = .ok t ∧
        t.ListedBy (.ofMemory t true)) ∧
      ∃ p, (Zip.Package.open Zip.small .root).1 = .ok p ∧
        p.tree.ListedBy (.ofZip p fun _ => Zip.small) := by
  obtain ⟨hmemory, hbundle, hpackage⟩ := listings_enumerate
  have hload := Tar.load_of_entries .root Tar.members_small Tar.smallMembers_carry
    smallEntries_wellNamed
  obtain ⟨p, hrecords, -⟩ := Zip.ofRecords_alike .root Zip.smallRecords_carry
    smallEntries_wellNamed
  have hopen := Zip.open_of_records Zip.directory?_small hrecords
  exact ⟨hmemory smallCalls, ⟨_, hload, hbundle _ _ _ hload⟩, p, hopen, hpackage _ _ p hopen _⟩

end Source

end AssetUnpack
