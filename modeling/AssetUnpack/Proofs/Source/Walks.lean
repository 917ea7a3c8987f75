import AssetUnpack.Proofs.Extraction.Listing
import AssetUnpack.Proofs.Extraction.Visit

/-!
# Walks that meet every node once

Nothing keeps a source from listing a name twice, or a text that is no name, and a
walk takes what it gets. Where a source is `Tidy`, and lists names and each of them
once, neither walk is ever given anything to give up on, and no node comes by twice:
what is met below one child lies below that child, and below no other.

`Apart` is that argument. It is about lists of paths, so the listing and the
extraction share it, the one with the paths that it enters and the other with the
places that it lays out. Of a listing more can be said, for it does not depend on what
it came through: its entries stand in preorder (`Manifest.Preorder`).

A listing of a source that is not tidy may meet a node twice and fail at another, but
it leaves out nothing that it could have met (`Manifest.Complete`).
-/

namespace AssetUnpack

/-- Paths of some kind, each of them once. -/
structure Apart (at_ : AssetPath → Prop) (ps : List AssetPath) : Prop where
  within : ∀ p ∈ ps, at_ p
  nodup : ps.Nodup

/-- The paths from the children of a path. -/
def FromChildren (q : AssetPath) (names : List Name) (x : AssetPath) : Prop :=
  ∃ n ∈ names, (q.child n).Under x

namespace Apart

variable {q : AssetPath} {n : Name} {names : List Name} {ps ps' : List AssetPath}

theorem nil (at_ : AssetPath → Prop) : Apart at_ [] := ⟨nofun, List.nodup_nil⟩

/-- A path in front of what comes from its children. -/
theorem node (h : Apart (FromChildren q names) ps) : Apart q.Under (q :: ps) := by
  refine ⟨fun p hp => ?_, List.nodup_cons.mpr ⟨fun hq => ?_, h.nodup⟩⟩
  · rcases List.mem_cons.mp hp with rfl | hp
    · exact p.under_refl
    · obtain ⟨m, -, hm⟩ := h.within p hp
      exact AssetPath.under_of_child hm
  · obtain ⟨m, -, hm⟩ := h.within q hq
    exact q.not_under_child m hm

theorem single (q : AssetPath) : Apart q.Under [q] := node (nil (FromChildren q []))

/-- What comes from one child in front of what comes from others. -/
theorem cons (h : Apart (q.child n).Under ps) (h' : Apart (FromChildren q names) ps')
    (hnew : n ∉ names) : Apart (FromChildren q (n :: names)) (ps ++ ps') := by
  refine ⟨fun p hp => ?_, List.nodup_append.mpr ⟨h.nodup, h'.nodup, fun p hp p' hp' => ?_⟩⟩
  · rcases List.mem_append.mp hp with hp | hp
    · exact ⟨n, List.mem_cons_self, h.within p hp⟩
    · obtain ⟨m, hm, hunder⟩ := h'.within p hp
      exact ⟨m, List.mem_cons_of_mem _ hm, hunder⟩
  · rintro rfl
    obtain ⟨m, hm, hunder⟩ := h'.within p hp'
    exact AssetPath.child_apart (fun heq => hnew (by rw [heq]; exact hm)) (h.within p hp) hunder

end Apart

/-- A source that lists names, and each of them once. -/
def Source.Tidy (s : Source) : Prop :=
  ∀ disk path, ∃ names : List Name,
    s.list disk path = (.ok (names.map (·.text)), []) ∧ names.Nodup

/-! ## The listing -/

namespace Manifest

/-- Entries of nodes with one parent, each node in front of what is below it. `below`
has the names that are listed below a path, `kind` what a path is taken for. -/
inductive Preorder (below : AssetPath → List Name) (kind : AssetPath → Option NodeKind) :
    AssetPath → List Name → List ManifestEntry → Prop
  | nil (q : AssetPath) : Preorder below kind q [] []
  | cons {q : AssetPath} {n : Name} {names : List Name} {inside rest : List ManifestEntry}
      (hinside : Preorder below kind (q.child n) (below (q.child n)) inside)
      (hrest : Preorder below kind q names rest) :
      Preorder below kind q (n :: names) (⟨q.child n, kind (q.child n)⟩ :: (inside ++ rest))

/-- Names that are there once each lead to paths that are there once each. -/
theorem Preorder.apart {below : AssetPath → List Name} {kind : AssetPath → Option NodeKind}
    {q : AssetPath} {names : List Name} {es : List ManifestEntry}
    (h : Preorder below kind q names es) (hbelow : ∀ p, (below p).Nodup) (hnames : names.Nodup) :
    Apart (FromChildren q names) (es.map (·.path)) := by
  induction h with
  | nil q => exact Apart.nil _
  | cons hinside hrest ih ih' =>
      obtain ⟨hnew, hnames'⟩ := List.nodup_cons.mp hnames
      rw [List.map_cons, List.map_append, ← List.cons_append]
      exact (ih (hbelow _)).node.cons (ih' hnames') hnew

/-- A manifest with more entries. -/
def extend (m : Manifest) (es : List ManifestEntry) : Manifest := { m with entries := m.entries ++ es }

theorem extend_nil (m : Manifest) : m.extend [] = m := by
  unfold extend
  rw [List.append_nil]

theorem extend_extend (m : Manifest) (es es' : List ManifestEntry) :
    (m.extend es).extend es' = m.extend (es ++ es') := by
  unfold extend
  rw [List.append_assoc]

/-- What a listing takes a path for. -/
def takenFor (s : Source) (disk : Disk) (below : AssetPath → List Name) (p : AssetPath) :
    Option NodeKind :=
  if below p = [] then s.kind disk p else some .directory

section Listing

variable {s : Source} {disk : Disk} {below : AssetPath → List Name}

mutual

theorem listNode_preorder
    (hs : ∀ p, s.list disk p = (.ok ((below p).map (·.text)), [])) (path : AssetPath) (w : Walk) :
    ∃ inside, Preorder below (takenFor s disk below) path (below path) inside ∧
      (listNode s disk path w).manifest =
        w.manifest.extend (⟨path, takenFor s disk below path⟩ :: inside) := by
  have hlist := hs path
  cases hnames : below path with
  | nil =>
      have hkind : takenFor s disk below path = s.kind disk path := if_pos hnames
      rw [hnames, List.map_nil] at hlist
      rw [listNode_of_leaf hlist, hkind]
      exact ⟨[], .nil path, rfl⟩
  | cons n names =>
      have hkind : takenFor s disk below path = some .directory :=
        if_neg (by rw [hnames]; exact List.cons_ne_nil n names)
      have hd : path.depth < s.depthLimit :=
        Source.depth_lt_of_list (by rw [hlist, hnames]; rfl)
      rw [hnames, List.map_cons] at hlist
      obtain ⟨es, hes, hmanifest⟩ := listChildren_preorder hs path hd (n :: names)
        ((w.noteAll []).push path (some .directory))
      rw [listNode_of_children hlist, hkind]
      exact ⟨es, hes, hmanifest.trans (w.manifest.extend_extend [⟨path, some .directory⟩] es)⟩
termination_by (s.depthLimit - path.depth, 1, 0)

theorem listChildren_preorder
    (hs : ∀ p, s.list disk p = (.ok ((below p).map (·.text)), [])) (parent : AssetPath)
    (hd : parent.depth < s.depthLimit) (names : List Name) (w : Walk) :
    ∃ es, Preorder below (takenFor s disk below) parent names es ∧
      (listChildren s disk parent hd (names.map (·.text)) w).manifest = w.manifest.extend es := by
  match names with
  | [] =>
      rw [List.map_nil, listChildren_nil]
      exact ⟨[], .nil parent, w.manifest.extend_nil.symm⟩
  | n :: names =>
      rw [List.map_cons, listChildren_of_name hd n.ofString_text]
      obtain ⟨inside, hinside, hnode⟩ := listNode_preorder hs (parent.child n) w
      obtain ⟨rest, hrest, hothers⟩ := listChildren_preorder hs parent hd names
        (listNode s disk (parent.child n) w)
      refine ⟨_, .cons hinside hrest, hothers.trans ?_⟩
      rw [hnode, extend_extend, List.cons_append]
termination_by (s.depthLimit - parent.depth, 0, names.length)
decreasing_by
  · apply Prod.Lex.left
    simp only [AssetPath.depth, AssetPath.child, List.length_append, List.length_singleton]
      at hd ⊢
    omega
  · apply Prod.Lex.right
    apply Prod.Lex.right
    simp

end

/-- A listing of a source that lists names comes to the nodes in preorder. -/
theorem ofSource_preorder (hs : ∀ p, s.list disk p = (.ok ((below p).map (·.text)), []))
    (root : AssetPath) :
    ∃ es, Preorder below (takenFor s disk below) root (below root) es ∧
      (ofSource s disk root).1 = .ok { root := root, entries := es } := by
  have hlist := hs root
  cases hnames : below root with
  | nil =>
      rw [hnames, List.map_nil] at hlist
      exact ⟨[], .nil root, ofSource_of_leaf hlist⟩
  | cons n names =>
      have hd : root.depth < s.depthLimit :=
        Source.depth_lt_of_list (by rw [hlist, hnames]; rfl)
      rw [hnames, List.map_cons] at hlist
      obtain ⟨es, hes, hmanifest⟩ := listChildren_preorder hs root hd (n :: names)
        ⟨{ root := root }, []⟩
      exact ⟨es, hes, (ofSource_of_children hlist).trans (congrArg Except.ok hmanifest)⟩

/-- A listing of a tidy source meets every node once and stops nowhere. -/
theorem ofSource_once (hs : s.Tidy) (disk : Disk) (root : AssetPath) :
    ∃ m, (ofSource s disk root).1 = .ok m ∧ m.nodesFailed = 0 ∧ (m.entries.map (·.path)).Nodup := by
  obtain ⟨below, hbelow⟩ := Classical.skolem.mp (hs disk)
  obtain ⟨es, hes, hm⟩ := ofSource_preorder (fun p => (hbelow p).1) root
  exact ⟨_, hm, rfl, (hes.apart (fun p => (hbelow p).2) (hbelow root).2).nodup⟩

/-! ### Any source -/

/-- A node that is among some entries, or that cannot be listed. -/
def Covered (s : Source) (disk : Disk) (es : List ManifestEntry) (p : AssetPath) : Prop :=
  p ∈ es.map (·.path) ∨ ∃ e, (s.list disk p).1 = .error e

/-- Entries that leave out nothing that is listed below one of them. -/
def Closed (s : Source) (disk : Disk) (es : List ManifestEntry) : Prop :=
  ∀ p ∈ es.map (·.path), ∀ names, (s.list disk p).1 = .ok names →
    ∀ n : Name, n.text ∈ names → Covered s disk es (p.child n)

theorem Covered.mono {es es' : List ManifestEntry} {p : AssetPath} (h : Covered s disk es p)
    (hsub : es ⊆ es') : Covered s disk es' p :=
  h.imp_left fun hmem => List.map_subset _ hsub hmem

theorem Closed.append {es es' : List ManifestEntry} (h : Closed s disk es)
    (h' : Closed s disk es') : Closed s disk (es ++ es') := by
  intro p hp names hnames n hn
  rw [List.map_append] at hp
  rcases List.mem_append.mp hp with hp | hp
  · exact (h p hp names hnames n hn).mono (List.subset_append_left _ _)
  · exact (h' p hp names hnames n hn).mono (List.subset_append_right _ _)

/-- A node in front of everything that is listed below it. -/
theorem Closed.node {es : List ManifestEntry} {p : AssetPath} {kind : Option NodeKind}
    {names : List String} (h : Closed s disk es) (hlist : (s.list disk p).1 = .ok names)
    (hbelow : ∀ n : Name, n.text ∈ names → Covered s disk es (p.child n)) :
    Closed s disk (⟨p, kind⟩ :: es) ∧ Covered s disk (⟨p, kind⟩ :: es) p := by
  refine ⟨fun x hx names' hnames' n hn => ?_, Or.inl List.mem_cons_self⟩
  rcases List.mem_cons.mp hx with rfl | hx
  · obtain rfl := Except.ok.inj (hlist.symm.trans hnames')
    exact (hbelow n hn).mono (List.subset_cons_self _ _)
  · exact (h x hx names' hnames' n hn).mono (List.subset_cons_self _ _)

mutual

/-- Whatever a source lists, a listing goes there. -/
theorem listNode_closed (path : AssetPath) (w : Walk) :
    ∃ es, (listNode s disk path w).manifest.entries = w.manifest.entries ++ es ∧
      Closed s disk es ∧ Covered s disk es path := by
  match hlist : s.list disk path with
  | (.error e, events) =>
      rw [listNode_of_error hlist]
      exact ⟨[], (List.append_nil _).symm, nofun, Or.inr ⟨e, by rw [hlist]⟩⟩
  | (.ok [], events) =>
      rw [listNode_of_leaf hlist]
      have hnone : Closed s disk [] := nofun
      exact ⟨_, rfl, hnone.node (congrArg Prod.fst hlist) nofun⟩
  | (.ok (name :: names), events) =>
      have hd : path.depth < s.depthLimit := Source.depth_lt_of_list (by rw [hlist])
      obtain ⟨es, hes, hclosed, hbelow⟩ := listChildren_closed path hd (name :: names)
        ((w.noteAll events).push path (some .directory))
      rw [listNode_of_children hlist]
      exact ⟨_, hes.trans (List.append_assoc _ _ _),
        hclosed.node (congrArg Prod.fst hlist) hbelow⟩
termination_by (s.depthLimit - path.depth, 1, 0)

theorem listChildren_closed (parent : AssetPath) (hd : parent.depth < s.depthLimit)
    (names : List String) (w : Walk) :
    ∃ es, (listChildren s disk parent hd names w).manifest.entries = w.manifest.entries ++ es ∧
      Closed s disk es ∧
      ∀ n : Name, n.text ∈ names → Covered s disk es (parent.child n) := by
  match names with
  | [] =>
      rw [listChildren_nil]
      exact ⟨[], (List.append_nil _).symm, nofun, nofun⟩
  | name :: names =>
      cases hn : Name.ofString name with
      | error e =>
          obtain ⟨es, hes, hclosed, hothers⟩ := listChildren_closed parent hd names
            (w.fail (.invalidName parent name e))
          rw [listChildren_of_fault hd hn]
          refine ⟨es, hes, hclosed, fun n hmem => ?_⟩
          rcases List.mem_cons.mp hmem with rfl | hmem
          · rw [n.ofString_text] at hn
            cases hn
          · exact hothers n hmem
      | ok m =>
          obtain ⟨inside, hinside, hclosed, hfirst⟩ := listNode_closed (parent.child m) w
          obtain ⟨rest, hrest, hclosed', hothers⟩ := listChildren_closed parent hd names
            (listNode s disk (parent.child m) w)
          rw [listChildren_of_name hd hn]
          refine ⟨inside ++ rest, ?_, hclosed.append hclosed', fun n hmem => ?_⟩
          · exact hrest.trans (by rw [hinside, List.append_assoc])
          rcases List.mem_cons.mp hmem with rfl | hmem
          · rw [n.ofString_text] at hn
            obtain rfl := Except.ok.inj hn
            exact hfirst.mono (List.subset_append_left _ _)
          · exact (hothers n hmem).mono (List.subset_append_right _ _)
termination_by (s.depthLimit - parent.depth, 0, names.length)
decreasing_by
  · apply Prod.Lex.right
    apply Prod.Lex.right
    simp
  · apply Prod.Lex.left
    simp only [AssetPath.depth, AssetPath.child, List.length_append, List.length_singleton]
      at hd ⊢
    omega
  · apply Prod.Lex.right
    apply Prod.Lex.right
    simp

end

/-- A manifest without gaps: whatever is listed below its starting node, or below an entry, is an
entry as well or cannot be listed. -/
structure Complete (s : Source) (disk : Disk) (root : AssetPath) (m : Manifest) : Prop where
  start : ∀ names, (s.list disk root).1 = .ok names →
    ∀ n : Name, n.text ∈ names → Covered s disk m.entries (root.child n)
  closed : Closed s disk m.entries

/-- A listing that does not fail at its starting node leaves nothing out. -/
theorem ofSource_complete (root : AssetPath) {names : List String}
    (h : (s.list disk root).1 = .ok names) :
    ∃ m, (ofSource s disk root).1 = .ok m ∧ Complete s disk root m := by
  rcases hlist : s.list disk root with ⟨result, events⟩
  rw [hlist] at h
  obtain rfl : result = .ok names := h
  have hsame : ∀ {names'}, (s.list disk root).1 = .ok names' → names' = names := by
    intro names' h'
    rw [hlist] at h'
    exact (Except.ok.inj h').symm
  cases names with
  | nil =>
      refine ⟨_, ofSource_of_leaf hlist, fun names' h' n hn => ?_, nofun⟩
      rw [hsame h'] at hn
      cases hn
  | cons name names =>
      have hd : root.depth < s.depthLimit := Source.depth_lt_of_list (by rw [hlist])
      obtain ⟨es, hes, hclosed, hbelow⟩ :=
        listChildren_closed root hd (name :: names) ⟨{ root := root }, events⟩
      rw [List.nil_append] at hes
      refine ⟨_, ofSource_of_children hlist, fun names' h' n hn => ?_, ?_⟩
      · rw [hes]
        exact hbelow n (hsame h' ▸ hn)
      · rw [hes]
        exact hclosed

end Listing

end Manifest

/-! ## The extraction -/

namespace Extraction

/-- Tasks that lay something out at some places, at each of them once, and never give
up. -/
structure Once (at_ : AssetPath → Prop) (tasks : List Task) : Prop where
  places : Apart at_ (places tasks)
  goesOn : ∀ t ∈ tasks, t.givesUp = false

section Plan

variable {s : Source} (config : ExtractConfig) (base : HostPath)

theorem Once.cons {place : AssetPath} {n : Name} {names : List Name} {ts us : List Task}
    (h : Once (place.child n).Under ts) (h' : Once (FromChildren place names) us)
    (hnew : n ∉ names) : Once (FromChildren place (n :: names)) (ts ++ us) := by
  refine ⟨?_, fun t ht => (List.mem_append.mp ht).elim (h.goesOn t) (h'.goesOn t)⟩
  rw [places_append]
  exact h.places.cons h'.places hnew

mutual

theorem planNode_once (hs : s.Tidy) (path place : AssetPath) (r : Run) :
    Once place.Under (planNode (.ofSource s) config base path place r) := by
  obtain ⟨names, hlist, hnodup⟩ := hs r.disk path
  match names with
  | [] =>
      have hlist' : (LiveSource.ofSource s).list r path = (.ok [], []) := hlist
      rw [planNode_of_leaf hlist']
      exact ⟨Apart.single place, by simp [Task.givesUp]⟩
  | n :: names =>
      have hlist' : (LiveSource.ofSource s).list r path =
          (.ok (n.text :: names.map (·.text)), []) := hlist
      have hd : path.depth < (LiveSource.ofSource s).depthLimit :=
        LiveSource.depth_lt_of_list (by rw [hlist'])
      have hbelow := planChildren_once hs path hd place (n :: names) hnodup
        (ensureDirectory (base.under place) (r.noteAll []))
      rw [planNode_of_children hlist']
      refine ⟨hbelow.places.node, fun t ht => ?_⟩
      rcases List.mem_cons.mp ht with rfl | ht
      · rfl
      rcases List.mem_cons.mp ht with rfl | ht
      · rfl
      · exact hbelow.goesOn t ht
termination_by (s.depthLimit - path.depth, 1, 0)

theorem planChildren_once (hs : s.Tidy) (parent : AssetPath)
    (hd : parent.depth < (LiveSource.ofSource s).depthLimit) (place : AssetPath)
    (names : List Name) (hnodup : names.Nodup) (r : Run) :
    Once (FromChildren place names)
      (planChildren (.ofSource s) config base parent hd place (names.map (·.text)) r) := by
  match names with
  | [] =>
      rw [List.map_nil, planChildren_nil]
      exact ⟨Apart.nil _, nofun⟩
  | n :: names =>
      obtain ⟨hnew, hnodup'⟩ := List.nodup_cons.mp hnodup
      rw [List.map_cons, planChildren_of_name hd n.ofString_text]
      exact (planNode_once hs _ (place.child n) r).cons
        (planChildren_once hs parent hd place names hnodup' _) hnew
termination_by (s.depthLimit - parent.depth, 0, names.length)
decreasing_by
  · apply Prod.Lex.left
    have hd' : parent.depth < s.depthLimit := hd
    simp only [AssetPath.depth, List.length_append, List.length_singleton] at hd' ⊢
    omega
  · apply Prod.Lex.right
    apply Prod.Lex.right
    simp

end

theorem planRun_once (hs : s.Tidy) {names : List Name} (hnodup : names.Nodup) (r : Run) :
    (places (planRun (.ofSource s) config base (names.map (·.text)) r)).Nodup ∧
      ∀ t ∈ planRun (.ofSource s) config base (names.map (·.text)) r, t.givesUp = false := by
  cases names with
  | nil =>
      rw [List.map_nil, planRun]
      cases config.sourceRoot.fileName? with
      | none => exact ⟨List.nodup_nil, by simp [Task.givesUp]⟩
      | some name =>
          dsimp only
          split
          · exact ⟨List.nodup_nil, by simp [Task.givesUp]⟩
          · exact ⟨(Apart.single _).nodup, by simp [Task.givesUp]⟩
  | cons n names =>
      rw [List.map_cons, planRun]
      split
      · next hd =>
          have honce := planChildren_once config base hs config.sourceRoot hd .root (n :: names)
            hnodup r
          exact ⟨honce.places.nodup, honce.goesOn⟩
      · exact ⟨List.nodup_nil, nofun⟩

end Plan

end Extraction

/-! ## Both walks -/

/-- Walks over a source meet every node once and are given nothing that is no name,
wherever they start. A listing stops nowhere, and an extraction is a list of tasks
that goes on to its end. -/
structure Source.WalkedOnce (s : Source) : Prop where
  listing : ∀ disk root, ∃ m, (Manifest.ofSource s disk root).1 = .ok m ∧ m.nodesFailed = 0 ∧
    (m.entries.map (·.path)).Nodup
  extraction : ∀ (config : ExtractConfig) (dest : Destination) (disk : Disk),
    ∃ names : List Name, (s.list disk config.sourceRoot).1 = .ok (names.map (·.text)) ∧
      let start := Extraction.opening config dest disk []
      let tasks := Extraction.planRun (.ofSource s) config dest.path (names.map (·.text)) start
      Extraction.run s config dest disk =
          Extraction.finish (Extraction.performAll (.ofSource s) config dest.path tasks start) ∧
        (Extraction.places tasks).Nodup ∧ ∀ t ∈ tasks, t.givesUp = false

theorem Source.Tidy.walkedOnce {s : Source} (hs : s.Tidy) : s.WalkedOnce := by
  refine ⟨Manifest.ofSource_once hs, fun config dest disk => ?_⟩
  obtain ⟨names, hlist, hnodup⟩ := hs disk config.sourceRoot
  exact ⟨names, congrArg Prod.fst hlist, Extraction.runLive_of_list hlist,
    Extraction.planRun_once config dest.path hs hnodup _⟩

end AssetUnpack
