import AssetUnpack.Proofs.Extraction.Clean
import AssetUnpack.Proofs.Extraction.Visited

/-!
# A walk that goes after its own output

Nothing keeps a destination from lying inside the source, and then the walk comes to
the destination and lists what is there by that time. Whatever the run has laid out
in it so far is visited like everything else, and laid out once more below it.

With the destination right inside the source that goes on for one step: the siblings
that sort before the destination have been mirrored when it is listed, and those
mirrors are visited (`chases_sibling`). With the destination two levels down or more it
does not end of itself. The mirror of the directory on the way is made before that
directory is gone into, so it is there when the destination is listed; gone into, it
is mirrored in turn, and what is laid out next lies in it again. The walk goes round
until a path gets too long (`chases_round`).
-/

namespace AssetUnpack

namespace HostPath

theorem utf8ByteSize_push_bounds (p : HostPath) (n : Name) :
    p.text.utf8ByteSize + n.text.utf8ByteSize ≤ (p.push n).text.utf8ByteSize ∧
      (p.push n).text.utf8ByteSize ≤ p.text.utf8ByteSize + n.text.utf8ByteSize + 1 := by
  have hslash : "/".utf8ByteSize = 1 := by decide
  unfold push
  dsimp only
  split <;> simp only [String.utf8ByteSize_append] <;> omega

theorem under_append (base : HostPath) (p q : AssetPath) :
    base.under (p.append q) = (base.under p).under q :=
  List.foldl_append

theorem utf8ByteSize_under_le (base : HostPath) (p q : AssetPath) :
    (base.under p).text.utf8ByteSize ≤ (base.under (p.append q)).text.utf8ByteSize := by
  have hle := Directory.length_le_utf8ByteSize_under (base.under p) q
  rw [under_append]
  omega

theorem utf8ByteSize_under_append_le (base : HostPath) (start p q : AssetPath) :
    (base.under (start.append p)).text.utf8ByteSize ≤
      (base.under (start.append (p.append q))).text.utf8ByteSize := by
  have hassoc : start.append (p.append q) = (start.append p).append q := by
    simp [AssetPath.append]
  rw [hassoc]
  exact base.utf8ByteSize_under_le _ q

/-- A name pushed further down makes a longer path. -/
theorem utf8ByteSize_under_child_le (base : HostPath) (start : AssetPath) (m : Name)
    (ms : List Name) (f : Name) :
    (base.under (start.child f)).text.utf8ByteSize ≤
      (base.under (start.append ⟨m :: ms ++ [f]⟩)).text.utf8ByteSize := by
  have hchild : base.under (start.child f) = (base.under start).push f := Extraction.under_snoc ..
  have hlast : base.under (start.append ⟨m :: ms ++ [f]⟩) =
      ((base.under start).under ⟨m :: ms⟩).push f := by
    rw [← under_append]
    show base.under ⟨start.names ++ (m :: ms ++ [f])⟩ = _
    rw [← List.append_assoc, Extraction.under_snoc]
    rfl
  have hdeep := Directory.length_le_utf8ByteSize_under (base.under start) ⟨m :: ms⟩
  have hpush := utf8ByteSize_push_bounds (base.under start) f
  have hpush' := utf8ByteSize_push_bounds ((base.under start).under ⟨m :: ms⟩) f
  rw [hchild, hlast]
  simp only [AssetPath.depth, List.length_cons] at hdeep
  omega

end HostPath

namespace AssetPath

theorem append_cons (q : AssetPath) (n : Name) (rest : List Name) :
    q.append ⟨n :: rest⟩ = (q.child n).append ⟨rest⟩ := by
  simp [append, child]

/-- What goes round in a cycle of two names or more is two names ahead of itself. -/
theorem ahead_of_round {cycle place : AssetPath} {n m : Name} {rest : List Name}
    (hlong : 2 ≤ cycle.names.length)
    (hround : ((place.child n).append ⟨m :: rest⟩).names <+:
      cycle.names ++ ((place.child n).append ⟨m :: rest⟩).names) :
    place.names ++ [n, m] <+: cycle.names ++ place.names := by
  have hsplit : ((place.child n).append ⟨m :: rest⟩).names = place.names ++ [n, m] ++ rest := by
    simp [append, child]
  rw [hsplit] at hround
  refine List.prefix_of_prefix_length_le ((List.prefix_append _ rest).trans hround) ?_ ?_
  · rw [List.append_assoc place.names, ← List.append_assoc]
    exact List.prefix_append _ _
  · simp only [List.length_append, List.length_cons, List.length_nil]
    omega

end AssetPath

theorem Destination.of_resolve {d : Disk} {path : HostPath} {dest : Destination}
    (h : resolve d path = .ok dest) : d.resolve path = .ok (dest.place, .directory) :=
  (resolve_eq_ok.mp h).1

namespace Disk

/-- On a disk without links none is below where a path leads. -/
theorem LinkFreeAt.of_resolve {d : Disk} (h : d.LinkFreeAt []) {path : HostPath} {place : Place}
    (hfound : d.resolve path = .ok (place, .directory)) : d.LinkFreeAt place :=
  LinkFreeAt.of_directory h (find_truthful (find_of_resolve hfound))

/-- Something stands at a place, and it is no empty directory. -/
def Filled (d : Disk) (place : Place) : Prop :=
  ∃ e, d.get? place = some e ∧ (e = .directory → ∃ name, d.get? (place ++ [name]) ≠ none)

theorem filled_of_file {d : Disk} {place : Place} {number : Nat} {bytes : Bytes}
    (h : d.get? place = some (.file number bytes)) : d.Filled place := by
  refine ⟨_, h, fun hdir => ?_⟩
  cases hdir

theorem Filled.mono {d d' : Disk} {place : Place} (h : d.Extends d') (hf : d.Filled place) :
    d'.Filled place := by
  obtain ⟨e, he, hin⟩ := hf
  obtain ⟨e', he', hshape⟩ := h place e he
  refine ⟨e', he', ?_⟩
  rintro rfl
  obtain ⟨name, hname⟩ := hin (DiskEntry.shape_eq_directory.mp hshape.symm)
  exact ⟨name, h.ne_none hname⟩

/-- Of two names in a directory the lesser one is listed before the other. -/
theorem sortedNames_split {d : Disk} {place : Place} (hkeys : d.table.keys.Nodup) {a b : String}
    (hlt : a < b) (ha : d.get? (place ++ [a]) ≠ none) (hb : d.get? (place ++ [b]) ≠ none) :
    ∃ before after, d.sortedNames place = before ++ a :: after ∧ b ∈ after := by
  obtain ⟨before, after, hsplit⟩ := List.append_of_mem (mem_sortedNames.mpr ha)
  refine ⟨before, after, hsplit, ?_⟩
  have hmem := mem_sortedNames.mpr hb
  have hsorted := sortedNames_increasing hkeys place
  rw [hsplit] at hmem hsorted
  rcases List.mem_append.mp hmem with hin | hin
  · have hgt := (List.pairwise_append.mp hsorted).2.2 b hin a List.mem_cons_self
    exact absurd hgt (String.lt_asymm hlt)
  · refine List.mem_of_ne_of_mem ?_ hin
    rintro rfl
    exact String.lt_irrefl _ hlt

end Disk

namespace Extraction

open Disk (pathOf)

/-! ## One step down -/

theorem hereditary_under :
    Hereditary (fun _ place tasks => ∀ p ∈ places tasks, place.Under p)
      fun _ place tasks => ∀ p ∈ places tasks, place.Under p where
  unlistable _ _ _ _ := nofun
  leaf _ place _ p hp := by
    rw [List.mem_singleton.mp hp]
    exact place.under_refl
  directory _ place _ _ htasks p hp := by
    rcases List.mem_cons.mp hp with rfl | hp
    · exact p.under_refl
    · exact htasks p hp
  nil _ _ := nofun
  fault _ _ _ _ _ htasks := htasks
  name _ place n ts us hts hus p hp := by
    rw [places_append] at hp
    rcases List.mem_append.mp hp with hp | hp
    · exact AssetPath.under_of_child (n := n) (hts p hp)
    · exact hus p hp

section Walk

variable {d₀ : Disk} {dest : Place} {known : List AssetPath} {r : Run}

theorem mem_nodes_planNode (start : AssetPath) (s : LiveSource) (config : ExtractConfig)
    (base : HostPath) (place : AssetPath) (r : Run) :
    start.append place ∈ nodes start (planNode s config base (start.append place) place r) := by
  cases hlist : s.list r (start.append place) with
  | mk answer events =>
      cases answer with
      | error e =>
          rw [planNode_of_error hlist]
          exact List.mem_cons_self
      | ok names =>
          cases names with
          | nil =>
              rw [planNode_of_leaf hlist]
              exact List.mem_cons_self
          | cons name listed =>
              rw [planNode_of_children hlist, nodes_directory]
              exact List.mem_cons_self

/-- The walk comes to every name that is listed. Nothing has gone by then, and nothing has
been laid out for the name. -/
theorem planChildren_comes_to (start : AssetPath) (s : LiveSource) (config : ExtractConfig)
    {parent place : AssetPath} (ha : Aside d₀ dest known r) (hknown : place ∈ known)
    (hd : parent.depth < s.depthLimit)
    {listed : List String} {n : Name} (hn : n.text ∈ listed) :
    ∃ r', Aside d₀ dest known r' ∧ r.disk.Extends r'.disk ∧
      r'.disk.get? ((place.child n).below dest) = r.disk.get? ((place.child n).below dest) ∧
      ∀ p ∈ nodes start (planNode s config ⟨pathOf dest⟩ (parent.child n) (place.child n) r'),
        p ∈ nodes start (planChildren s config ⟨pathOf dest⟩ parent hd place listed r) := by
  induction listed generalizing r with
  | nil => cases hn
  | cons name listed ih =>
      cases hofName : Name.ofString name with
      | error e =>
          have hother : n.text ≠ name := by
            rintro rfl
            rw [n.ofString_text] at hofName
            cases hofName
          have hfailed : Aside d₀ dest known
              (r.fail (.invalidName parent name e) (.invalidName parent name)) := ha.congr rfl
          obtain ⟨r', ha', hgrown, hsame, hnodes⟩ := ih hfailed (List.mem_of_ne_of_mem hother hn)
          refine ⟨r', ha', hgrown, hsame, fun p hp => ?_⟩
          rw [planChildren_of_fault hd hofName]
          exact hnodes p hp
      | ok m =>
          rw [planChildren_of_name hd hofName]
          by_cases hm : m = n
          · subst hm
            refine ⟨r, ha, Disk.Extends.refl _, rfl, fun p hp => ?_⟩
            rw [nodes_append]
            exact List.mem_append_left _ hp
          have hother : n.text ≠ name := by
            rintro rfl
            rw [n.ofString_text] at hofName
            exact hm (Except.ok.inj hofName).symm
          have hordered := planNode_ordered s config ⟨pathOf dest⟩ (parent.child m) place.names m r
            hknown
          have helse : place.child n ∉ places
              (planNode s config ⟨pathOf dest⟩ (parent.child m) (place.child m) r) := by
            intro hmem
            have hunder := hereditary_under.planNode s config ⟨pathOf dest⟩ (parent.child m)
              (place.child m) r _ hmem
            exact AssetPath.child_apart hm hunder (place.child n).under_refl
          obtain ⟨r', ha', hgrown, hsame, hnodes⟩ := ih (ha.performAll s config hordered)
            (List.mem_of_ne_of_mem hother hn)
          refine ⟨r', ha', (ha.grows s config hordered).trans hgrown,
            hsame.trans (ha.underway.performAll_elsewhere s config hordered helse), fun p hp => ?_⟩
          rw [nodes_append]
          exact List.mem_append_right _ (hnodes p hp)

end Walk

section Directory

variable {d₀ : Disk} {base : HostPath} {root dest : Place} {start : AssetPath}
  {known : List AssetPath} {r : Run} {place : AssetPath} {n : Name} (config : ExtractConfig)

/-- A directory with something in it lists that. -/
theorem Aside.lists (ha : Aside d₀ dest known r)
    (hbase : d₀.resolve base = .ok (root, .directory)) (hfree : d₀.LinkFreeAt root)
    {path : AssetPath} {entry : String} (hthere : r.disk.get? (path.below root ++ [entry]) ≠ none)
    (hshort : (base.under path).text.utf8ByteSize < Disk.pathLimit) :
    ∃ name listed, (directorySource base).list r path = (.ok (name :: listed), []) ∧
      name :: listed = r.disk.sortedNames (path.below root) ∧ entry ∈ name :: listed := by
  have hlinkFree := ha.linkFree root hfree
  obtain ⟨e, he⟩ := Option.ne_none_iff_exists'.mp hthere
  have hdir := hlinkFree.wellFormed.housed he
  have hlist : (directorySource base).list r path =
      (.ok (r.disk.sortedNames (path.below root)), []) :=
    Directory.list_under (ha.resolve hbase) hlinkFree hshort hdir
  have hmem := Disk.mem_sortedNames.mpr hthere
  obtain ⟨name, listed, hnames⟩ := List.exists_cons_of_ne_nil (List.ne_nil_of_mem hmem)
  rw [hnames] at hlist hmem
  exact ⟨name, listed, hlist, hnames.symm, hmem⟩

/-- The walk goes into a directory with something in it once it has seen to the mirror. -/
theorem Aside.goes_into (ha : Aside d₀ dest known r)
    (hbase : d₀.resolve base = .ok (root, .directory)) (hfree : d₀.LinkFreeAt root)
    (hknown : place ∈ known) {m : Name}
    (hthere : r.disk.get? ((start.append (place.child n)).below root ++ [m.text]) ≠ none)
    (hshort : (base.under (start.append (place.child n))).text.utf8ByteSize < Disk.pathLimit) :
    ∃ seen r',
      seen = ensureDirectory (HostPath.under ⟨pathOf dest⟩ (place.child n)) (r.noteAll []) ∧
      r.disk.Extends seen.disk ∧ Aside d₀ dest (place.child n :: known) r' ∧
      seen.disk.Extends r'.disk ∧
      r'.disk.get? (((place.child n).child m).below dest) =
        seen.disk.get? (((place.child n).child m).below dest) ∧
      ∀ p ∈ nodes start (planNode (directorySource base) config ⟨pathOf dest⟩
          (start.append ((place.child n).child m)) ((place.child n).child m) r'),
        p ∈ nodes start (planNode (directorySource base) config ⟨pathOf dest⟩
          (start.append (place.child n)) (place.child n) r) := by
  obtain ⟨name, listed, hlist, -, hmem⟩ := ha.lists hbase hfree hthere hshort
  have hd := LiveSource.depth_lt_of_list (s := directorySource base) (by rw [hlist])
  have hwithin : Task.Within known (.directory (place.child n)) := Task.within_of_snoc rfl hknown
  have hnoted : Aside d₀ dest known (r.noteAll []) := ha.congr rfl
  have hseen := hnoted.perform (directorySource base) config hwithin
  have hgrown := hnoted.grows (directorySource base) config (ordered_singleton hwithin)
  obtain ⟨r', ha', hgrown', hsame, hnodes⟩ := planChildren_comes_to start
    (directorySource base) config hseen List.mem_cons_self hd hmem
  refine ⟨_, r', rfl, hgrown, ha', hgrown', hsame, fun p hp => ?_⟩
  rw [planNode_of_children hlist, nodes_directory]
  rw [AssetPath.append_child] at hp
  exact List.mem_cons_of_mem _ (hnodes p hp)

/-- What is no directory is mirrored, unless something is there already. -/
theorem leaf_mirrors (ha : Aside d₀ dest known r)
    (hbase : d₀.resolve base = .ok (root, .directory)) (hfree : d₀.LinkFreeAt root)
    (ho : r.disk.Opens (place.below dest) n.text) {path : AssetPath} {e : DiskEntry}
    (he : r.disk.get? (path.below root) = some e) (hleaf : e ≠ .directory)
    (hshort : (base.under path).text.utf8ByteSize < Disk.pathLimit) :
    (extractLeaf (directorySource base) config path
      (HostPath.under ⟨pathOf dest⟩ (place.child n)) r).disk.get? ((place.child n).below dest) ≠
      none := by
  have hlinkFree := ha.linkFree root hfree
  have hresolve := ha.resolve hbase
  have hkind : (directorySource base).kind r path ≠ some .directory := by
    show (Source.ofDirectory base).kind r.disk path ≠ some .directory
    simp [Source.ofDirectory, Disk.resolve_under hresolve hlinkFree hshort he,
      DiskEntry.isDirectory_of_ne hleaf]
  have hopen : (directorySource base).openAsset (beginLeaf path r) path = .ok _ :=
    Source.ofDirectory_opens hresolve hlinkFree hshort he hleaf false
  rw [ha.underway.free.under, AssetPath.below_child, extractLeaf_disk, if_neg hkind,
    copyLeaf_disk (r := beginLeaf path r) (ha.underway.free.plain place.names n) ho, leafBytes,
    hopen]
  dsimp only
  split
  · next hpresent =>
      split at hpresent
      · next hstays => exact hstays.2
      · cases hpresent
  · exact Disk.get?_keep_ne_none (Disk.place_ne_nil _ _) _

/-- What is filled is mirrored, whatever the policy for empty directories. -/
theorem node_mirrors (ha : Aside d₀ dest known r)
    (hbase : d₀.resolve base = .ok (root, .directory)) (hfree : d₀.LinkFreeAt root)
    (hknown : place ∈ known) (ho : r.disk.Opens (place.below dest) n.text)
    (hfilled : r.disk.Filled ((start.append (place.child n)).below root))
    (hshort : (base.under (start.append (place.child n))).text.utf8ByteSize < Disk.pathLimit) :
    (performAll (directorySource base) config ⟨pathOf dest⟩
      (planNode (directorySource base) config ⟨pathOf dest⟩ (start.append (place.child n))
        (place.child n) r) r).disk.get? ((place.child n).below dest) ≠ none := by
  have hnoted : Aside d₀ dest known (r.noteAll []) := ha.congr rfl
  obtain ⟨e, he, hin⟩ := hfilled
  by_cases hdir : e = .directory
  · obtain ⟨entry, hentry⟩ := hin hdir
    obtain ⟨name, listed, hlist, -⟩ := ha.lists hbase hfree hentry hshort
    have hd := LiveSource.depth_lt_of_list (s := directorySource base) (by rw [hlist])
    have hwithin : Task.Within known (.directory (place.child n)) :=
      Task.within_of_snoc rfl hknown
    have hseen := hnoted.perform (directorySource base) config hwithin
    rw [planNode_of_children hlist]
    refine (hseen.grows (directorySource base) config
      (planChildren_ordered _ config _ _ hd _ _ _ List.mem_cons_self)).ne_none ?_
    rw [Task.perform, ha.underway.free.under, AssetPath.below_child,
      ensureDirectory_disk (r := r.noteAll []) (ha.underway.free.plain place.names n) ho]
    exact Disk.get?_house_ne_none (Disk.place_ne_nil _ _)
  · have hlist : (directorySource base).list r (start.append (place.child n)) = (.ok [], []) :=
      Directory.list_under_leaf (ha.resolve hbase) (ha.linkFree root hfree) hshort he hdir
    rw [planNode_of_leaf hlist]
    exact leaf_mirrors config hnoted hbase hfree ho he hdir hshort

/-- The walk gets from a node to everything below it that is there already. -/
theorem node_reaches (hbase : d₀.resolve base = .ok (root, .directory))
    (hfree : d₀.LinkFreeAt root) (rest : List Name) (ha : Aside d₀ dest known r)
    (hknown : place ∈ known)
    (hthere : r.disk.get? ((start.append ((place.child n).append ⟨rest⟩)).below root) ≠ none)
    (hshort : (base.under (start.append ((place.child n).append ⟨rest⟩))).text.utf8ByteSize <
      Disk.pathLimit) :
    start.append ((place.child n).append ⟨rest⟩) ∈ nodes start (planNode (directorySource base)
      config ⟨pathOf dest⟩ (start.append (place.child n)) (place.child n) r) := by
  induction rest generalizing place n known r with
  | nil =>
      rw [show (place.child n).append ⟨[]⟩ = place.child n from AssetPath.append_root _]
      exact mem_nodes_planNode ..
  | cons m rest ih =>
      have hnext : r.disk.get? ((start.append (place.child n)).below root ++ [m.text]) ≠ none := by
        obtain ⟨e, he⟩ := Option.ne_none_iff_exists'.mp hthere
        have hplace : (start.append ((place.child n).append ⟨m :: rest⟩)).below root =
            (start.append (place.child n)).below root ++ [m.text] ++ rest.map (·.text) := by
          simp [AssetPath.below, AssetPath.append]
        rw [hplace] at he
        exact (ha.linkFree root hfree).wellFormed.ne_none_above he
      have hshort' := Nat.lt_of_le_of_lt (base.utf8ByteSize_under_append_le ..) hshort
      obtain ⟨seen, r', -, hgrown, ha', hgrown', -, hnodes⟩ :=
        ha.goes_into config hbase hfree hknown hnext hshort'
      rw [AssetPath.append_cons] at hthere hshort ⊢
      exact hnodes _ (ih ha' List.mem_cons_self ((hgrown.trans hgrown').ne_none hthere) hshort)

/-- A mirror that was not there is made a directory with nothing in it. -/
theorem Aside.new_mirror (ha : Aside d₀ dest known r) {place : AssetPath} {n : Name}
    (ho : r.disk.Opens (place.below dest) n.text)
    (hnew : r.disk.get? ((place.child n).below dest) = none) :
    let seen := ensureDirectory (HostPath.under ⟨pathOf dest⟩ (place.child n)) (r.noteAll [])
    seen.disk.get? ((place.child n).below dest) = some .directory ∧
      ∀ m, seen.disk.get? (((place.child n).child m).below dest) = none := by
  intro seen
  have hne := Disk.place_ne_nil (place.below dest) n.text
  have hmade : seen.disk = r.disk.house (place.below dest ++ [n.text]) := by
    show (ensureDirectory _ (r.noteAll [])).disk = _
    rw [ha.underway.free.under, AssetPath.below_child]
    exact ensureDirectory_disk (r := r.noteAll []) (ha.underway.free.plain place.names n) ho
  rw [AssetPath.below_child] at hnew
  rw [hmade, AssetPath.below_child]
  refine ⟨Disk.get?_house_of_none hne hnew, fun m => ?_⟩
  have hother : place.below dest ++ [n.text] ++ [m.text] ≠ place.below dest ++ [n.text] := by simp
  rw [AssetPath.below_child, AssetPath.below_child, Disk.get?_house_of_ne hne hother,
    Option.eq_none_iff_forall_ne_some]
  intro e he
  rw [ha.underway.free.wellFormed.housed he] at hnew
  cases hnew

/-- Where the destination lies two levels down or more, and its mirror is not there yet, the
walk comes to all that goes round in the names that lead to it. -/
theorem node_rounds (hbase : d₀.resolve base = .ok (root, .directory))
    (hfree : d₀.LinkFreeAt root) {cycle : AssetPath}
    (hdest : dest = (start.append cycle).below root) (hlong : 2 ≤ cycle.names.length)
    (rest : List Name) (ha : Aside d₀ dest known r) (hknown : place ∈ known)
    (hopen : r.disk.get? (place.below dest) = some .directory)
    (hnew : r.disk.get? ((place.child n).below dest) = none)
    (hround : ((place.child n).append ⟨rest⟩).names <+:
      cycle.names ++ ((place.child n).append ⟨rest⟩).names)
    (hshort : (base.under (start.append ((place.child n).append ⟨rest⟩))).text.utf8ByteSize <
      Disk.pathLimit)
    (hshortMirror : (pathOf (((place.child n).append ⟨rest⟩).below dest)).utf8ByteSize <
      Disk.pathLimit) :
    start.append ((place.child n).append ⟨rest⟩) ∈ nodes start (planNode (directorySource base)
      config ⟨pathOf dest⟩ (start.append (place.child n)) (place.child n) r) := by
  induction rest generalizing place n known r with
  | nil =>
      rw [show (place.child n).append ⟨[]⟩ = place.child n from AssetPath.append_root _]
      exact mem_nodes_planNode ..
  | cons m rest ih =>
      -- What comes after this node lies above the mirror that was made last.
      obtain ⟨more, hmore⟩ := AssetPath.ahead_of_round hlong hround
      have hplace : place.below dest =
          (start.append (place.child n)).below root ++ [m.text] ++ more.map (·.text) := by
        have hnames := congrArg (List.map (·.text)) hmore
        simp only [List.map_append, List.map_cons, List.map_nil] at hnames
        rw [hdest]
        simp [AssetPath.below, AssetPath.append, AssetPath.child, ← hnames]
      have hwell := ha.underway.free.wellFormed
      have hnext : r.disk.get? ((start.append (place.child n)).below root ++ [m.text]) ≠ none :=
        hwell.ne_none_above (hplace ▸ hopen)
      have hshort' := Nat.lt_of_le_of_lt (base.utf8ByteSize_under_append_le ..) hshort
      obtain ⟨seen, r', hseen, -, ha', hgrown, hsame, hnodes⟩ :=
        ha.goes_into config hbase hfree hknown hnext hshort'
      have hname : n.text.utf8ByteSize ≤ Disk.nameLimit := by
        refine hwell.short (hplace ▸ hopen) n.text ?_
        simp [AssetPath.below, AssetPath.append, AssetPath.child]
      have hlimit : (pathOf (place.below dest ++ [n.text])).utf8ByteSize < Disk.pathLimit := by
        refine Nat.lt_of_le_of_lt ?_ hshortMirror
        have hle := Disk.utf8ByteSize_pathOf_le (place.below dest ++ [n.text])
          ((m :: rest).map (·.text))
        simpa [AssetPath.below, AssetPath.append, AssetPath.child] using hle
      obtain ⟨hmade, hempty⟩ := ha.new_mirror ⟨hopen, hname, hlimit⟩ hnew
      rw [← hseen] at hmade hempty
      have hnew' := hsame.trans (hempty m)
      rw [AssetPath.append_cons] at hround hshort hshortMirror ⊢
      exact hnodes _ (ih ha' List.mem_cons_self (hgrown.directory hmade) hnew' hround hshort
        hshortMirror)

end Directory

/-! ## A destination inside the source -/

theorem planChildren_append (s : LiveSource) (config : ExtractConfig) (base : HostPath)
    {parent : AssetPath} (hd : parent.depth < s.depthLimit) (place : AssetPath)
    (before after : List String) (r : Run) :
    planChildren s config base parent hd place (before ++ after) r =
      planChildren s config base parent hd place before r ++
        planChildren s config base parent hd place after
          (performAll s config base (planChildren s config base parent hd place before r) r) := by
  induction before generalizing r with
  | nil =>
      rw [planChildren_nil]
      rfl
  | cons name before ih =>
      cases hn : Name.ofString name with
      | error e =>
          rw [List.cons_append, planChildren_of_fault hd hn, planChildren_of_fault hd hn, ih]
          rfl
      | ok n =>
          rw [List.cons_append, planChildren_of_name hd hn, planChildren_of_name hd hn, ih,
            performAll_append, List.append_assoc]

section Inside

variable {disk : Disk} {base : HostPath} {root : Place} {dest : Destination}
  (config : ExtractConfig) {m f : Name} {ms : List Name}

theorem aside_start (hdest : disk.LinkFreeAt dest.place) :
    Aside disk dest.place [.root] { disk := disk } :=
  (aside_opening hdest {} dest []).congr rfl

/-- A child of the starting node has its place right below the destination. -/
theorem child_eq_append (start : AssetPath) (n : Name) :
    start.child n = start.append (AssetPath.root.child n) := by
  rw [AssetPath.append_child, AssetPath.append_root]

/-- Once the walk has come to `f` it comes to the mirror of it, if the destination is still to
be listed. -/
theorem children_chase {d₀ : Disk} {known : List AssetPath} {r : Run}
    (hbase : d₀.resolve base = .ok (root, .directory)) (hfree : d₀.LinkFreeAt root)
    (ha : Aside d₀ dest.place known r) (hknown : .root ∈ known)
    (hinside : dest.place = (config.sourceRoot.append ⟨m :: ms⟩).below root)
    (hd : config.sourceRoot.depth < (directorySource base).depthLimit) {after : List String}
    (hm : m.text ∈ after) (ho : r.disk.Opens dest.place f.text)
    (hfilled : r.disk.Filled ((config.sourceRoot.child f).below root))
    (hshort : (base.under (config.sourceRoot.child f)).text.utf8ByteSize < Disk.pathLimit)
    (hshort' : (base.under (config.sourceRoot.append ⟨m :: ms ++ [f]⟩)).text.utf8ByteSize <
      Disk.pathLimit) :
    config.sourceRoot.append ⟨m :: ms ++ [f]⟩ ∈ nodes config.sourceRoot
      (planChildren (directorySource base) config dest.path config.sourceRoot hd .root
        (f.text :: after) r) := by
  rw [child_eq_append] at hfilled hshort
  rw [← AssetPath.below_root dest.place] at ho
  have hmirror := node_mirrors config ha hbase hfree hknown ho hfilled hshort
  have hordered := planNode_ordered (directorySource base) config dest.path
    (config.sourceRoot.append (AssetPath.root.child f)) [] f r hknown
  obtain ⟨r', ha', hgrown, -, hnodes⟩ := planChildren_comes_to config.sourceRoot
    (directorySource base) config (ha.performAll (directorySource base) config hordered) hknown hd
    hm
  have hthere : r'.disk.get? ((config.sourceRoot.append
      ((AssetPath.root.child m).append ⟨ms ++ [f]⟩)).below root) ≠ none := by
    refine hgrown.ne_none ?_
    have hplace : (config.sourceRoot.append ((AssetPath.root.child m).append ⟨ms ++ [f]⟩)).below
        root = (AssetPath.root.child f).below dest.place := by
      rw [hinside]
      simp [AssetPath.below, AssetPath.append, AssetPath.child, AssetPath.root]
    rw [hplace]
    exact hmirror
  have hreach := node_reaches config hbase hfree (ms ++ [f]) ha' hknown hthere hshort'
  rw [← child_eq_append] at hreach
  rw [planChildren_of_name hd f.ofString_text, nodes_append]
  refine List.mem_append_right _ ?_
  rw [show (⟨config.sourceRoot.names ++ [f]⟩ : AssetPath) =
    config.sourceRoot.append (AssetPath.root.child f) from child_eq_append _ _]
  exact hnodes _ hreach

/-- What sorts before the destination is mirrored when the walk gets there, and so the walk
comes to the mirror. -/
theorem chases_sibling (hbase : disk.resolve base = .ok (root, .directory))
    (hfree : disk.LinkFreeAt root) (hkeys : disk.table.keys.Nodup)
    (hdest : disk.LinkFreeAt dest.place)
    (hinside : dest.place = (config.sourceRoot.append ⟨m :: ms⟩).below root)
    (hlt : f.text < m.text) (hfilled : disk.Filled ((config.sourceRoot.child f).below root))
    (hshort : (base.under (config.sourceRoot.append ⟨m :: ms ++ [f]⟩)).text.utf8ByteSize <
      Disk.pathLimit)
    (hshortMirror : (pathOf (dest.place ++ [f.text])).utf8ByteSize < Disk.pathLimit) :
    config.sourceRoot.append ⟨m :: ms ++ [f]⟩ ∈
      visited (directorySource base) config dest disk := by
  have hstart := aside_start hdest
  have hm : disk.get? (config.sourceRoot.below root ++ [m.text]) ≠ none := by
    have hdir := hdest.directory
    rw [hinside, AssetPath.below_append, AssetPath.below_cons] at hdir
    exact hfree.wellFormed.ne_none_above hdir
  have hf : disk.get? (config.sourceRoot.below root ++ [f.text]) ≠ none := by
    obtain ⟨e, he, -⟩ := hfilled
    rw [AssetPath.below_child] at he
    rw [he]
    exact Option.some_ne_none e
  have hshortTop := Nat.lt_of_le_of_lt (base.utf8ByteSize_under_le config.sourceRoot _) hshort
  obtain ⟨name, listed, hlist, hnames, -⟩ := hstart.lists hbase hfree hm hshortTop
  obtain ⟨before, after, hsplit, hafter⟩ := Disk.sortedNames_split hkeys hlt hf hm
  have hd := LiveSource.depth_lt_of_list (s := directorySource base) (by rw [hlist])
  rw [visited_of_children hlist hd, hnames, hsplit, planChildren_append, nodes_append]
  refine List.mem_cons_of_mem _ (List.mem_append_right _ ?_)
  have hopening := aside_opening hdest config dest []
  have hordered := planChildren_ordered (directorySource base) config dest.path config.sourceRoot hd
    .root before (opening config dest disk []) (List.mem_singleton.mpr rfl)
  have hgrown := hopening.grows (directorySource base) config hordered
  have hname : f.text.utf8ByteSize ≤ Disk.nameLimit := by
    obtain ⟨e, he⟩ := Option.ne_none_iff_exists'.mp hf
    exact hfree.wellFormed.short he f.text (by simp)
  have hshortOwn : (base.under (config.sourceRoot.child f)).text.utf8ByteSize < Disk.pathLimit :=
    Nat.lt_of_le_of_lt (base.utf8ByteSize_under_child_le config.sourceRoot m ms f) hshort
  have hlisted := hopening.performAll (directorySource base) config hordered
  exact children_chase config hbase hfree hlisted (List.mem_singleton.mpr rfl) hinside hd hafter
    ⟨hgrown.directory hdest.directory, hname, hshortMirror⟩ (hfilled.mono hgrown) hshortOwn hshort

/-- A destination two levels down or deeper in which there is no mirror yet of the directory on
the way: the walk comes to all that goes round in the names that lead there. -/
theorem chases_round {m' : Name} (hbase : disk.resolve base = .ok (root, .directory))
    (hfree : disk.LinkFreeAt root) (hdest : disk.LinkFreeAt dest.place)
    (hinside : dest.place = (config.sourceRoot.append ⟨m :: m' :: ms⟩).below root)
    (hnew : disk.get? (dest.place ++ [m.text]) = none) {q : AssetPath}
    (hround : q.names <+: m :: m' :: ms ++ q.names)
    (hshort : (base.under (config.sourceRoot.append q)).text.utf8ByteSize < Disk.pathLimit)
    (hshortMirror : (pathOf (q.below dest.place)).utf8ByteSize < Disk.pathLimit) :
    config.sourceRoot.append q ∈ visited (directorySource base) config dest disk := by
  obtain ⟨names⟩ := q
  cases names with
  | nil =>
      rw [show config.sourceRoot.append ⟨[]⟩ = config.sourceRoot from AssetPath.append_root _]
      exact List.mem_cons_self
  | cons n rest =>
      obtain rfl : n = m := by
        obtain ⟨more, hmore⟩ := hround
        exact (List.cons.inj hmore).1
      have hstart := aside_start hdest
      have hthere : disk.get? (config.sourceRoot.below root ++ [n.text]) ≠ none := by
        have hdir := hdest.directory
        rw [hinside, AssetPath.below_append, AssetPath.below_cons] at hdir
        exact hfree.wellFormed.ne_none_above hdir
      have hshort' := Nat.lt_of_le_of_lt (base.utf8ByteSize_under_le config.sourceRoot _) hshort
      obtain ⟨name, listed, hlist, -, hmem⟩ := hstart.lists hbase hfree hthere hshort'
      have hd := LiveSource.depth_lt_of_list (s := directorySource base) (by rw [hlist])
      obtain ⟨r', ha', hgrown, hsame, hnodes⟩ := planChildren_comes_to config.sourceRoot
        (directorySource base) config (aside_opening hdest config dest [])
        (List.mem_singleton.mpr rfl) hd hmem
      rw [visited_of_children hlist hd]
      refine List.mem_cons_of_mem _ (hnodes _ ?_)
      rw [child_eq_append]
      refine node_rounds config hbase hfree hinside (Nat.le_add_left 2 ms.length) rest ha'
        (List.mem_singleton.mpr rfl) ?_ ?_ hround hshort hshortMirror
      · rw [AssetPath.below_root]
        exact hgrown.directory hdest.directory
      · rw [hsame, AssetPath.below_child, AssetPath.below_root]
        exact hnew

end Inside

/-- What an extraction of a directory visits on a disk without links. It visits each node once,
and what was not there before only below the destination. If it lays out nothing new below
the starting node it visits nothing new, and no more nodes than there were. But it visits
mirrors that it has just made: of what sorts before the destination inside the source, and
with the destination two levels down or deeper of all that goes round in the names that
lead there, as long as the paths are not too long for the disk. -/
theorem run_visits {disk : Disk} {base destPath : HostPath} {root : Place} {dest : Destination}
    (hfree : disk.LinkFreeAt []) (hkeys : disk.table.keys.Nodup)
    (hbase : disk.resolve base = .ok (root, .directory))
    (hdest : Destination.resolve disk destPath = .ok dest) (config : ExtractConfig) :
    let start := config.sourceRoot
    let nodes := visited (directorySource base) config dest disk
    nodes.Nodup ∧
      (∀ p ∈ nodes, p = start ∨ disk.get? (p.below root) ≠ none ∨
        StrictlyBelow dest.place (p.below root)) ∧
      (LaysNothingNew disk (start.below root) dest.place →
        (∀ p ∈ nodes, p = start ∨ disk.get? (p.below root) ≠ none) ∧
          nodes.length ≤ (placesBelow disk (start.below root)).length + 1) ∧
      (∀ (m f : Name) (ms : List Name), dest.place = (start.append ⟨m :: ms⟩).below root →
        f.text < m.text → disk.Filled ((start.child f).below root) →
        (base.under (start.append ⟨m :: ms ++ [f]⟩)).text.utf8ByteSize < Disk.pathLimit →
        (pathOf (dest.place ++ [f.text])).utf8ByteSize < Disk.pathLimit →
        start.append ⟨m :: ms ++ [f]⟩ ∈ nodes) ∧
      ∀ (m m' : Name) (ms : List Name), dest.place = (start.append ⟨m :: m' :: ms⟩).below root →
        disk.get? (dest.place ++ [m.text]) = none →
        ∀ q : AssetPath, q.names <+: m :: m' :: ms ++ q.names →
          (base.under (start.append q)).text.utf8ByteSize < Disk.pathLimit →
          (pathOf (q.below dest.place)).utf8ByteSize < Disk.pathLimit → start.append q ∈ nodes := by
  intro start nodes
  have hroot : disk.LinkFreeAt root := hfree.of_resolve hbase
  have hplace : disk.LinkFreeAt dest.place := hfree.of_resolve (Destination.of_resolve hdest)
  obtain ⟨hnodup, houtside⟩ := visited_keeps config
    (keeps_outside disk (start.below root) dest.place) hbase hroot hkeys hplace trivial
  refine ⟨hnodup, fun p hp => (houtside p hp).imp_right ?_,
    visited_old config hbase hroot hkeys hplace, ?_, ?_⟩
  · rintro ⟨q, rfl, hq⟩
    rw [AssetPath.below_append]
    exact hq
  · intro m f ms hinside hlt hfilled hshort hshortMirror
    exact chases_sibling config hbase hroot hkeys hplace hinside hlt hfilled hshort hshortMirror
  · intro m m' ms hinside hnew q hround hshort hshortMirror
    exact chases_round config hbase hroot hplace hinside hnew hround hshort hshortMirror

def keptName : Name := ⟨"kept", rfl⟩

def outName : Name := ⟨"out", rfl⟩

theorem kept_small :
    Disk.small.get? ((AssetPath.root.child keptName).below []) = some (.file 0 [7]) := rfl

theorem run_visits_small :
    Disk.small.LinkFreeAt [] ∧ Destination.resolve Disk.small ⟨"/out"⟩ = .ok ⟨["out"]⟩ ∧
      (visited (directorySource ⟨"/in"⟩) {} ⟨["out"]⟩ Disk.small).length ≤ 2 ∧
      (visited (directorySource ⟨"/in"⟩) {} ⟨["in"]⟩ Disk.small).length ≤ 2 ∧
      ⟨[outName, keptName]⟩ ∈ visited (directorySource ⟨"/"⟩) {} ⟨["out"]⟩ Disk.small := by
  have hfree := Disk.linkFreeAt_small
  have hout : Disk.small.resolve ⟨"/out"⟩ = .ok (["out"], .directory) :=
    hfree.wellFormed.resolve_directory Disk.linkFreeAt_small_out.directory (by decide)
  have hin : Disk.small.resolve ⟨"/in"⟩ = .ok (["in"], .directory) :=
    hfree.wellFormed.resolve_directory Disk.linkFreeAt_small_in.directory (by decide)
  have hwhole : Disk.small.resolve ⟨"/"⟩ = .ok ([], .directory) :=
    hfree.wellFormed.resolve_directory hfree.directory (by decide)
  have hdest : Destination.resolve Disk.small ⟨"/out"⟩ = .ok ⟨["out"]⟩ :=
    Destination.resolve_eq_ok.mpr ⟨hout, by decide⟩
  have hdest' : Destination.resolve Disk.small ⟨"/in"⟩ = .ok ⟨["in"]⟩ :=
    Destination.resolve_eq_ok.mpr ⟨hin, by decide⟩
  refine ⟨hfree, hdest, ?_, ?_, ?_⟩
  · have hold := (run_visits hfree (by decide) hin hdest {}).2.2.1
      (laysNothingNew_of_apart (by decide) (by decide))
    exact hold.2
  · have hold := (run_visits hfree (by decide) hin hdest' {}).2.2.1 (laysNothingNew_onto _ _)
    exact hold.2
  · have hchase := (run_visits hfree (by decide) hwhole hdest {}).2.2.2.1
    exact hchase outName keptName [] rfl (by decide) (Disk.filled_of_file kept_small) (by decide)
      (by decide)

/-- A directory is extracted into one that lies in it, and the walk comes to the mirror of a
file beside that one. -/
theorem run_chases_small :
    Disk.small.LinkFreeAt [] ∧ Source.openDirectory Disk.small ⟨"/"⟩ = .ok (.ofDirectory ⟨"/"⟩) ∧
      Destination.resolve Disk.small ⟨"/out"⟩ = .ok ⟨["out"]⟩ ∧
      ⟨[outName, keptName]⟩ ∈ visited (directorySource ⟨"/"⟩) {} ⟨["out"]⟩ Disk.small ∧
      Disk.small.get? ["out", "kept"] = none := by
  have hfree := Disk.linkFreeAt_small
  have hout : Disk.small.resolve ⟨"/out"⟩ = .ok (["out"], .directory) :=
    hfree.wellFormed.resolve_directory Disk.linkFreeAt_small_out.directory (by decide)
  have hwhole : Disk.small.resolve ⟨"/"⟩ = .ok ([], .directory) :=
    hfree.wellFormed.resolve_directory hfree.directory (by decide)
  have hinside : ["out"] = AssetPath.below (AssetPath.root.append ⟨[outName]⟩) [] := rfl
  refine ⟨hfree, by rw [Source.openDirectory, hwhole],
    Destination.resolve_eq_ok.mpr ⟨hout, by decide⟩, ?_, rfl⟩
  exact chases_sibling (f := keptName) {} hwhole hfree (by decide) Disk.linkFreeAt_small_out hinside
    (by decide) (Disk.filled_of_file kept_small) (by decide) (by decide)

end Extraction

end AssetUnpack
