import AssetUnpack.Proofs.Extraction.Visited

/-!
# A listing of a directory with links in it

A directory leaves the links to directories out of its listing, so that a link cannot
send a walk back to where it comes from. What it goes by is one look at each of its
entries, while the walk comes to a node by its whole path, through every link on the
way. That the two are of one mind has to be carried down the walk: what a listing says
of a node (`Listed`) is enough for the path of the node to lead to its own entry, or
not to a directory (`Listed.directory`).

So each node that a listing enters or fails to has an entry of its own on the disk,
its site. Sites are below those of the nodes above, and those of two nodes with one
parent are apart (`Met.append`), whatever the links lead to. Hence no path comes twice,
and there are no more nodes than entries below the directory where the walk starts
(`ofDirectory_walksDown`).
-/

namespace AssetUnpack

namespace Disk

variable {d : Disk} {path : HostPath}

/-- Whether a path names a directory itself. -/
def IsDirectory (d : Disk) (path : HostPath) : Prop :=
  ∃ place, d.find .entry path = .ok (.entry place .directory)

/-- Whether a path names a link. -/
def IsLink (d : Disk) (path : HostPath) : Prop :=
  ∃ place target, d.find .entry path = .ok (.entry place (.link target))

theorem hasDirectory_of_resolve {place : Place} (h : d.resolve path = .ok (place, .directory)) :
    d.hasDirectory path = true := by
  rw [hasDirectory, h]
  rfl

end Disk

namespace Directory

variable {d : Disk} {path : HostPath} {place : Place} {n : Name}

/-! ## One listing -/

theorem entryPath_eq_push (h : path.text ≠ "") (n : Name) :
    entryPath path n.text = path.push n := by
  have hne : path.text.toList ≠ [] := fun hnil => h (String.toList_eq_nil_iff.mp hnil)
  unfold entryPath HostPath.push
  simp only [hne, false_or]

/-- What a directory that was listed says of one of its names: an entry has that name, and if the
entry is a link, then it does not lead to a directory. -/
structure Listed (d : Disk) (path : HostPath) (place : Place) (n : Name) : Prop where
  above : d.resolve path = .ok (place, .directory)
  there : d.get? (place ++ [n.text]) ≠ none
  not_to_directory : ∀ target, d.get? (place ++ [n.text]) = some (.link target) →
    d.hasDirectory (path.push n) = false

theorem listed_of_mem (hres : d.resolve path = .ok (place, .directory)) {listed : List String}
    {events : List Event} (h : list d path = (.ok listed, events)) (hn : n.text ∈ listed) :
    Listed d path place n := by
  obtain ⟨hthere, hlink⟩ := (mem_list hres h).mp hn
  refine ⟨hres, hthere, fun target htarget => ?_⟩
  rw [entryPath_eq_push (Disk.walk_of_resolve hres).1, isDirectoryLink, htarget] at hlink
  exact hlink

/-- Where the path of a node that was listed leads to a directory, the entry with its name is that
directory. -/
theorem Listed.directory (h : Listed d path place n) {place' : Place}
    (hres : d.resolve (path.push n) = .ok (place', .directory)) :
    place' = place ++ [n.text] ∧ d.find .entry (path.push n) = .ok (.entry place' .directory) := by
  obtain ⟨follow, hfollow⟩ := Disk.find_push Disk.target_ne_creation h.above n
  obtain ⟨follow', hentry⟩ := Disk.find_push Disk.entry_ne_creation h.above n
  rw [Disk.find_of_resolve hres] at hfollow
  split at hfollow
  · cases hfollow
  next hshort =>
  rw [if_neg hshort] at hentry
  cases hnext : d.get? (place ++ [n.text]) with
  | none => exact absurd hnext h.there
  | some e =>
      rw [hnext] at hfollow hentry
      cases e with
      | link target =>
          have hnot := h.not_to_directory target hnext
          rw [Disk.hasDirectory_of_resolve hres] at hnot
          cases hnot
      | directory =>
          obtain ⟨rfl, -⟩ := Found.entry.inj (Except.ok.inj hfollow)
          exact ⟨rfl, hentry⟩
      | file | device => cases hfollow

/-- The path of a node that was listed is no link that leads to a directory. -/
theorem Listed.not_directoryLink (h : Listed d path place n) (hlink : d.IsLink (path.push n)) :
    d.hasDirectory (path.push n) = false := by
  obtain ⟨place', target, hfound⟩ := hlink
  obtain ⟨follow, hentry⟩ := Disk.find_push Disk.entry_ne_creation h.above n
  rw [hfound] at hentry
  split at hentry
  · cases hentry
  cases hnext : d.get? (place ++ [n.text]) with
  | none => exact absurd hnext h.there
  | some e =>
      rw [hnext] at hentry
      cases e with
      | link target' => exact h.not_to_directory target' hnext
      | directory | file | device => cases hentry

/-! ## The nodes of a walk and their sites -/

/-- Below the starting node and above another. -/
def Between (start x p : AssetPath) : Prop := start.Under x ∧ x ≠ start ∧ x.Under p ∧ x ≠ p

/-- A path of a walk from a node: it goes down from there through directories, and does not name a
link to one. -/
structure Descends (d : Disk) (base : HostPath) (start p : AssetPath) : Prop where
  below : start.Under p ∧ p ≠ start
  through : ∀ x, Between start x p → d.IsDirectory (base.under x)
  not_to_directory : d.IsLink (base.under p) → d.hasDirectory (base.under p) = false

/-- The place below `top` where the entry of a path below `start` stands. -/
def siteOf (start : AssetPath) (top : Place) (p : AssetPath) : Place :=
  AssetPath.below ⟨p.names.drop start.depth⟩ top

theorem siteOf_append (start : AssetPath) (top : Place) (q : AssetPath) :
    siteOf start top (start.append q) = q.below top := by
  rw [siteOf, AssetPath.append, AssetPath.depth, List.drop_left]

variable {base : HostPath} {start : AssetPath} {top : Place}

/-- Entries of a manifest, and the sites of all the nodes that were met on the way to them, those
included that failed. -/
structure Met (d : Disk) (base : HostPath) (start : AssetPath) (top : Place) (at_ : Place → Prop)
    (entries : List ManifestEntry) (sites : List Place) : Prop where
  descends : ∀ e ∈ entries, Descends d base start e.path
  sited : (entries.map fun e => siteOf start top e.path).Sublist sites
  nodup : sites.Nodup
  within : ∀ site ∈ sites, at_ site
  standing : ∀ site ∈ sites, d.get? site ≠ none

theorem met_nil (at_ : Place → Prop) : Met d base start top at_ [] [] :=
  ⟨nofun, List.Sublist.refl _, List.nodup_nil, nofun, nofun⟩

theorem met_failed {site : Place} (h : d.get? site ≠ none) :
    Met d base start top (site <+: ·) [] [site] := by
  refine ⟨nofun, List.nil_sublist _, by simp, fun s hs => ?_, fun s hs => ?_⟩
  · obtain rfl := List.mem_singleton.mp hs
    exact List.prefix_refl _
  · rwa [List.mem_singleton.mp hs]

theorem not_snoc_prefix (place : Place) (name : String) : ¬ place ++ [name] <+: place := by
  intro h
  have hlen := h.length_le
  rw [List.length_append, List.length_singleton] at hlen
  omega

/-- Nodes with one parent are apart from each other, with all that is below them. -/
theorem Met.append {name : String} {names : List String} {es es' : List ManifestEntry}
    {sites sites' : List Place} (h : Met d base start top (place ++ [name] <+: ·) es sites)
    (h' : Met d base start top (fun s => ∃ m ∈ names, place ++ [m] <+: s) es' sites')
    (hnew : name ∉ names) :
    Met d base start top (fun s => ∃ m ∈ name :: names, place ++ [m] <+: s) (es ++ es')
      (sites ++ sites') := by
  refine ⟨fun e he => ?_, ?_, ?_, fun s hs => ?_, fun s hs => ?_⟩
  · exact (List.mem_append.mp he).elim (h.descends e) (h'.descends e)
  · rw [List.map_append]
    exact h.sited.append h'.sited
  · refine List.nodup_append.mpr ⟨h.nodup, h'.nodup, fun s hs s' hs' heq => hnew ?_⟩
    obtain ⟨rest, rfl⟩ := h.within s hs
    obtain ⟨m, hm, rest', hrest'⟩ := h'.within s' hs'
    rw [← heq, List.append_assoc, List.append_assoc] at hrest'
    obtain rfl := (List.cons.inj (List.append_cancel_left hrest')).1
    exact hm
  · rcases List.mem_append.mp hs with hs | hs
    · exact ⟨name, List.mem_cons_self, h.within s hs⟩
    · obtain ⟨m, hm, hunder⟩ := h'.within s hs
      exact ⟨m, List.mem_cons_of_mem _ hm, hunder⟩
  · exact (List.mem_append.mp hs).elim (h.standing s) (h'.standing s)

/-- A node in front of what is below it. -/
theorem Met.node {names : List String} {es : List ManifestEntry} {sites : List Place}
    (h : Met d base start top (fun s => ∃ m ∈ names, place ++ [m] <+: s) es sites)
    {e : ManifestEntry} (he : Descends d base start e.path) (hsite : siteOf start top e.path = place)
    (hthere : d.get? place ≠ none) :
    Met d base start top (place <+: ·) (e :: es) (place :: sites) := by
  refine ⟨fun e' he' => ?_, ?_, List.nodup_cons.mpr ⟨fun hmem => ?_, h.nodup⟩, fun s hs => ?_,
    fun s hs => ?_⟩
  · rcases List.mem_cons.mp he' with rfl | he'
    · exact he
    · exact h.descends e' he'
  · rw [List.map_cons, hsite]
    exact h.sited.cons_cons place
  · obtain ⟨m, -, hunder⟩ := h.within place hmem
    exact not_snoc_prefix place m hunder
  · rcases List.mem_cons.mp hs with rfl | hs
    · exact List.prefix_refl _
    · obtain ⟨m, -, hunder⟩ := h.within s hs
      exact (List.prefix_append place [m]).trans hunder
  · rcases List.mem_cons.mp hs with rfl | hs
    · exact hthere
    · exact h.standing s hs

/-- What a walk adds to a manifest: the entries it meets, and one failure for each of the other
nodes. -/
def Adds (d : Disk) (base : HostPath) (start : AssetPath) (top : Place) (at_ : Place → Prop)
    (m m' : Manifest) : Prop :=
  ∃ es sites, Met d base start top at_ es sites ∧ m'.entries = m.entries ++ es ∧
    m'.nodesFailed + es.length = m.nodesFailed + sites.length

theorem adds_nil (at_ : Place → Prop) (m : Manifest) : Adds d base start top at_ m m :=
  ⟨[], [], met_nil at_, (List.append_nil _).symm, rfl⟩

theorem adds_failed {site : Place} (h : d.get? site ≠ none) (w : Manifest.Walk) (e : Event) :
    Adds d base start top (site <+: ·) w.manifest (w.fail e).manifest :=
  ⟨[], [site], met_failed h, (List.append_nil _).symm, rfl⟩

theorem Adds.append {name : String} {names : List String} {m m' m'' : Manifest}
    (h : Adds d base start top (place ++ [name] <+: ·) m m')
    (h' : Adds d base start top (fun s => ∃ m ∈ names, place ++ [m] <+: s) m' m'')
    (hnew : name ∉ names) :
    Adds d base start top (fun s => ∃ m ∈ name :: names, place ++ [m] <+: s) m m'' := by
  obtain ⟨es, sites, hmet, hentries, hfailed⟩ := h
  obtain ⟨es', sites', hmet', hentries', hfailed'⟩ := h'
  refine ⟨es ++ es', sites ++ sites', hmet.append hmet' hnew, ?_, ?_⟩
  · rw [hentries', hentries, List.append_assoc]
  · rw [List.length_append, List.length_append]
    omega

theorem Adds.node {names : List String} {w : Manifest.Walk} {p : AssetPath}
    {kind : Option NodeKind} {m : Manifest}
    (h : Adds d base start top (fun s => ∃ m ∈ names, place ++ [m] <+: s)
      (w.push p kind).manifest m)
    (hp : Descends d base start p) (hsite : siteOf start top p = place)
    (hthere : d.get? place ≠ none) : Adds d base start top (place <+: ·) w.manifest m := by
  obtain ⟨es, sites, hmet, hentries, hfailed⟩ := h
  refine ⟨⟨p, kind⟩ :: es, place :: sites, hmet.node hp hsite hthere, ?_, ?_⟩
  · exact hentries.trans (List.append_assoc _ _ _)
  · rw [List.length_cons, List.length_cons]
    simp only [Manifest.Walk.push] at hfailed
    omega

/-! ## The walk -/

/-- Between a node and one of its children there is only the node. -/
theorem between_child {x : AssetPath} {q : AssetPath}
    (h : Between start x (start.append (q.child n))) :
    x = start.append q ∧ q ≠ .root ∨ Between start x (start.append q) := by
  obtain ⟨hunder, hne, ⟨rest, hrest⟩, hne'⟩ := h
  rw [AssetPath.append_child] at hrest hne'
  rcases List.eq_nil_or_concat rest with rfl | ⟨front, last, rfl⟩
  · rw [List.append_nil] at hrest
    exact absurd (congrArg AssetPath.mk hrest) hne'
  rw [List.concat_eq_append, ← List.append_assoc] at hrest
  have hfront := (List.append_inj' hrest rfl).1
  by_cases hx : x = start.append q
  · refine Or.inl ⟨hx, ?_⟩
    rintro rfl
    exact hne (by rw [hx, AssetPath.append_root])
  · exact Or.inr ⟨hunder, hne, ⟨front, hfront⟩, hx⟩

theorem not_between_self (x : AssetPath) : ¬ Between start x start := by
  intro h
  obtain ⟨hunder, hne, habove, -⟩ := h
  have hnames : x.names = start.names :=
    habove.eq_of_length (Nat.le_antisymm habove.length_le hunder.length_le)
  exact hne (congrArg AssetPath.mk hnames)

/-- A node that was listed below a node of the walk is one of the walk. -/
theorem Listed.descends {q : AssetPath} (h : Listed d (base.under (start.append q)) place n)
    (hthrough : ∀ x, Between start x (start.append (q.child n)) → d.IsDirectory (base.under x)) :
    Descends d base start (start.append (q.child n)) := by
  refine ⟨⟨List.prefix_append _ _, fun heq => ?_⟩, hthrough, fun hlink => ?_⟩
  · have hroot := heq.trans (AssetPath.append_root start).symm
    exact q.child_ne_root n (AssetPath.append_injective hroot)
  · rw [AssetPath.append_child, AssetPath.child, Extraction.under_snoc] at hlink ⊢
    exact h.not_directoryLink hlink

mutual

theorem listNode_adds (hkeys : d.table.keys.Nodup) {q p : AssetPath} {n : Name}
    (hp : p = start.append (q.child n))
    (hlisted : Listed d (base.under (start.append q)) (q.below top) n)
    (hthrough : ∀ x, Between start x p → d.IsDirectory (base.under x)) (w : Manifest.Walk) :
    Adds d base start top ((q.child n).below top <+: ·) w.manifest
      (Manifest.listNode (.ofDirectory base) d p w).manifest := by
  have hpush : base.under p = (base.under (start.append q)).push n := by
    rw [hp, AssetPath.append_child]
    exact Extraction.under_snoc ..
  have hdescends : Descends d base start p := hp ▸ hlisted.descends (hp ▸ hthrough)
  have hsite : siteOf start top p = (q.child n).below top := hp ▸ siteOf_append start top _
  have hthere : d.get? ((q.child n).below top) ≠ none := by
    rw [AssetPath.below_child]
    exact hlisted.there
  match hlist : (Source.ofDirectory base).list d p with
  | (.error e, events) =>
      rw [Manifest.listNode_of_error hlist]
      exact adds_failed hthere (w.noteAll events) _
  | (.ok [], events) =>
      have hnone : Adds d base start top (fun s => ∃ m ∈ [], (q.child n).below top ++ [m] <+: s)
          ((w.noteAll events).push p ((Source.ofDirectory base).kind d p)).manifest _ :=
        adds_nil _ _
      rw [Manifest.listNode_of_leaf hlist]
      exact hnone.node hdescends hsite hthere
  | (.ok (name :: listed), events) =>
      obtain ⟨place, hres⟩ := resolve_of_list hlist
      rw [hpush] at hres
      obtain ⟨hplace, hentry⟩ := hlisted.directory hres
      rw [← AssetPath.below_child] at hplace
      rw [← hpush, hplace] at hres
      have hd : p.depth < (Source.ofDirectory base).depthLimit :=
        Source.depth_lt_of_list (by rw [hlist])
      -- The node is between the start and its children, and nothing else that is new.
      have hbelow : ∀ (m : Name) x, Between start x (start.append ((q.child n).child m)) →
          d.IsDirectory (base.under x) := by
        intro m x hx
        rcases between_child hx with ⟨rfl, -⟩ | hx
        · rw [← hp, hpush]
          exact ⟨place, hentry⟩
        · exact hthrough x (hp ▸ hx)
      have hchildren := listChildren_adds hkeys hp hres hbelow hd (list_nodup hkeys hlist)
        (fun m hm => ((mem_list hres hlist).mp hm).1) (fun m hm => listed_of_mem hres hlist hm)
        ((w.noteAll events).push p (some .directory))
      rw [Manifest.listNode_of_children hlist]
      exact hchildren.node hdescends hsite hthere
termination_by (Disk.pathLimit - p.depth, 1, 0)

theorem listChildren_adds (hkeys : d.table.keys.Nodup) {q parent : AssetPath}
    (hparent : parent = start.append q)
    (hres : d.resolve (base.under parent) = .ok (q.below top, .directory))
    (hthrough : ∀ (n : Name) x, Between start x (start.append (q.child n)) →
      d.IsDirectory (base.under x))
    (hd : parent.depth < (Source.ofDirectory base).depthLimit) {listed : List String}
    (hnodup : listed.Nodup) (hthere : ∀ name ∈ listed, d.get? (q.below top ++ [name]) ≠ none)
    (hlisted : ∀ n : Name, n.text ∈ listed → Listed d (base.under parent) (q.below top) n)
    (w : Manifest.Walk) :
    Adds d base start top (fun s => ∃ m ∈ listed, q.below top ++ [m] <+: s) w.manifest
      (Manifest.listChildren (.ofDirectory base) d parent hd listed w).manifest := by
  match listed with
  | [] =>
      rw [Manifest.listChildren_nil]
      exact adds_nil _ _
  | name :: listed =>
      obtain ⟨hnew, hnodup'⟩ := List.nodup_cons.mp hnodup
      have hthere' : ∀ m ∈ listed, d.get? (q.below top ++ [m]) ≠ none :=
        fun m hm => hthere m (List.mem_cons_of_mem _ hm)
      have hlisted' : ∀ m : Name, m.text ∈ listed → Listed d (base.under parent) (q.below top) m :=
        fun m hm => hlisted m (List.mem_cons_of_mem _ hm)
      have hrest := fun w => listChildren_adds hkeys hparent hres hthrough hd hnodup' hthere'
        hlisted' w
      cases hn : Name.ofString name with
      | error e =>
          rw [Manifest.listChildren_of_fault hd hn]
          exact (adds_failed (hthere name List.mem_cons_self) w _).append (hrest _) hnew
      | ok n =>
          have htext := AssetPath.text_of_ofString hn
          have hchild : parent.child n = start.append (q.child n) := by
            rw [hparent, AssetPath.append_child]
          have hfirst : Listed d (base.under (start.append q)) (q.below top) n := by
            rw [← hparent]
            exact hlisted n (by rw [htext]; exact List.mem_cons_self)
          have hway : ∀ x, Between start x (parent.child n) → d.IsDirectory (base.under x) := by
            rw [hchild]
            exact hthrough n
          have hnode := listNode_adds hkeys hchild hfirst hway w
          rw [AssetPath.below_child, htext] at hnode
          rw [Manifest.listChildren_of_name hd hn]
          exact hnode.append (hrest _) hnew
termination_by (Disk.pathLimit - parent.depth, 0, listed.length)
decreasing_by
  · apply Prod.Lex.right
    apply Prod.Lex.right
    simp
  · apply Prod.Lex.left
    have hd' : parent.depth < Disk.pathLimit := hd
    simp only [AssetPath.depth, AssetPath.child, List.length_append, List.length_singleton]
      at hd' ⊢
    omega

end

/-- A listing that went down from a node: to no path twice, through directories only and not into
links to them, and to no more nodes than there are entries below the directory that it started
from. -/
structure WalksDown (d : Disk) (base : HostPath) (start : AssetPath) (m : Manifest) : Prop where
  distinct : (m.entries.map (·.path)).Nodup
  descends : ∀ e ∈ m.entries, Descends d base start e.path
  few : ∀ top, d.resolve (base.under start) = .ok (top, .directory) →
    m.entries.length + m.nodesFailed ≤ (Extraction.placesBelow d top).length ∧
      ∀ e ∈ m.entries, d.get? (siteOf start top e.path) ≠ none
  none : (∀ top, d.resolve (base.under start) ≠ .ok (top, .directory)) →
    m.entries = [] ∧ m.nodesFailed = 0

theorem walksDown_empty (d : Disk) (base : HostPath) (start : AssetPath) :
    WalksDown d base start { root := start } :=
  ⟨List.nodup_nil, nofun, fun _ _ => ⟨Nat.zero_le _, nofun⟩, fun _ => ⟨rfl, rfl⟩⟩

/-- What a listing adds below the directory that it starts from is a listing that went down. -/
theorem Adds.walksDown (hres : d.resolve (base.under start) = .ok (top, .directory))
    {names : List String} {m : Manifest}
    (h : Adds d base start top (fun s => ∃ name ∈ names, top ++ [name] <+: s) { root := start } m) :
    WalksDown d base start m := by
  obtain ⟨es, sites, hmet, hentries, hfailed⟩ := h
  obtain rfl : m.entries = es := hentries.trans (List.nil_append es)
  have hsites : sites ⊆ Extraction.placesBelow d top := by
    intro site hsite
    obtain ⟨name, -, hunder⟩ := hmet.within site hsite
    refine Extraction.mem_placesBelow_iff.mpr
      ⟨(List.prefix_append top [name]).trans hunder, ?_, hmet.standing site hsite⟩
    rintro rfl
    exact not_snoc_prefix site name hunder
  have hsited := hmet.sited
  rw [show (fun e : ManifestEntry => siteOf start top e.path) =
    siteOf start top ∘ (·.path) from rfl, ← List.map_map] at hsited
  have hpaths : (m.entries.map (·.path)).Nodup :=
    List.Pairwise.of_map (siteOf start top) (fun _ _ => mt (congrArg _)) (hmet.nodup.sublist hsited)
  refine ⟨hpaths, hmet.descends, fun top' htop => ?_, fun hno => absurd hres (hno top)⟩
  rw [hres] at htop
  obtain rfl := (Prod.mk.inj (Except.ok.inj htop)).1
  refine ⟨?_, fun e he => ?_⟩
  · have hle := hmet.nodup.length_le_of_subset hsites
    have hcount : m.nodesFailed + m.entries.length = 0 + sites.length := hfailed
    omega
  · exact hmet.standing _ (hsited.subset (List.mem_map_of_mem (List.mem_map_of_mem he)))

/-- Whatever links there are, a listing of a directory fails where it starts, or it goes down from
there and leaves out nothing that the directories list. -/
theorem ofDirectory_walksDown (hkeys : d.table.keys.Nodup) (base : HostPath) (start : AssetPath) :
    (∀ e, (list d (base.under start)).1 = .error e →
      (Manifest.ofSource (.ofDirectory base) d start).1 = .error (.listFailed start.text e)) ∧
    ∀ names, (list d (base.under start)).1 = .ok names →
      ∃ m, (Manifest.ofSource (.ofDirectory base) d start).1 = .ok m ∧
        WalksDown d base start m ∧ Manifest.Complete (.ofDirectory base) d start m := by
  have hstart : start = start.append .root := (AssetPath.append_root start).symm
  rcases hlist : list d (base.under start) with ⟨result, events⟩
  constructor
  · intro e he
    obtain rfl : result = .error e := he
    exact congrArg Prod.fst (Manifest.ofSource_of_error hlist)
  intro listed hlisted
  obtain rfl : result = .ok listed := hlisted
  obtain ⟨m, hm, hcomplete⟩ := Manifest.ofSource_complete (s := .ofDirectory base) start
    (congrArg Prod.fst hlist)
  refine ⟨m, hm, ?_, hcomplete⟩
  cases listed with
  | nil =>
      obtain rfl := Except.ok.inj ((Manifest.ofSource_of_leaf hlist).symm.trans hm)
      exact walksDown_empty d base start
  | cons name names =>
      obtain ⟨top, hres⟩ := resolve_of_list hlist
      have htop : AssetPath.root.below top = top := AssetPath.below_root top
      have hbelow : ∀ (n : Name) x, Between start x (start.append (AssetPath.root.child n)) →
          d.IsDirectory (base.under x) := by
        intro n x hx
        rcases between_child hx with ⟨-, hne⟩ | hx
        · exact absurd rfl hne
        · rw [← hstart] at hx
          exact absurd hx (not_between_self x)
      have hchildren := listChildren_adds hkeys hstart (by rw [htop, hres]) hbelow
        (Source.depth_lt_of_list (congrArg Prod.fst hlist)) (list_nodup hkeys hlist)
        (fun m hm => by rw [htop]; exact ((mem_list hres hlist).mp hm).1)
        (fun m hm => by rw [htop]; exact listed_of_mem hres hlist hm) ⟨{ root := start }, events⟩
      rw [htop] at hchildren
      obtain rfl := Except.ok.inj ((Manifest.ofSource_of_children hlist).symm.trans hm)
      exact hchildren.walksDown hres

/-- A directory with links to the directory above, to itself and through each other. -/
def knotted : Disk :=
  ((Disk.small.put ["in", "up"] (.link "..")).put ["in", "self"] (.link "self")).put ["in", "out"]
    (.link "up/out")

theorem resolve_knotted :
    knotted.resolve ⟨"/in/up/in"⟩ = .ok (["in"], .directory) ∧
      knotted.resolve ⟨"/in/up/in/a"⟩ = .ok (["in", "a"], .file 1 [104, 105]) := by
  have hsome : ∀ {path : HostPath} {found : Place × DiskEntry},
      (knotted.resolve path).toOption = some found → knotted.resolve path = .ok found := by
    intro path found h
    cases hres : knotted.resolve path with
    | error e =>
        rw [hres] at h
        cases h
    | ok found' =>
        rw [hres] at h
        rw [Option.some.inj h]
  exact ⟨hsome (by decide +kernel), hsome (by decide +kernel)⟩

/-- The directory is come to through one of its links, and the file in it is listed. -/
theorem ofDirectory_walksDown_knotted :
    knotted.table.keys.Nodup ∧
      ∃ m, (Manifest.ofSource (.ofDirectory ⟨"/in/up/in"⟩) knotted .root).1 = .ok m ∧
        WalksDown knotted ⟨"/in/up/in"⟩ .root m ∧ m.entries.length + m.nodesFailed ≤ 4 ∧
        ⟨[Disk.fileNamed]⟩ ∈ m.entries.map (·.path) := by
  have hkeys : knotted.table.keys.Nodup := by decide
  obtain ⟨hres, hfile⟩ := resolve_knotted
  obtain ⟨names, events, hlist⟩ : ∃ names events, list knotted ⟨"/in/up/in"⟩ =
      (.ok names, events) := by
    rw [list, hres]
    simp only [List.partition_eq_filter_filter]
    exact ⟨_, _, rfl⟩
  obtain ⟨m, hm, hdown, hcomplete⟩ :=
    (ofDirectory_walksDown hkeys ⟨"/in/up/in"⟩ .root).2 names (congrArg Prod.fst hlist)
  have hfour : (Extraction.placesBelow knotted ["in"]).length = 4 := by decide +kernel
  have hfew := (hdown.few ["in"] hres).1
  rw [hfour] at hfew
  refine ⟨hkeys, m, hm, hdown, hfew, ?_⟩
  have hnamed : Disk.fileNamed.text ∈ names :=
    (mem_list hres hlist).mpr ⟨by decide, by decide +kernel⟩
  refine (hcomplete.start names (congrArg Prod.fst hlist) Disk.fileNamed hnamed).resolve_right ?_
  intro hfails
  obtain ⟨e, he⟩ := hfails
  have hnone : (list knotted ⟨"/in/up/in/a"⟩).1 = .ok [] := by rw [list, hfile]
  cases hnone.symm.trans he

end Directory

end AssetUnpack
