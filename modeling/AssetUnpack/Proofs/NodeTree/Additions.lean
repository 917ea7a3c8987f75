import AssetUnpack.Proofs.NodeTree.Part

/-!
# What an addition changes

An addition names a path, and all that it may have to touch lies on the way to that
path. Which of it does get touched can be told from the index before: the node at
the path, a directory for every path on the way where nothing is, and one more name
at the end of the list in which the first of these is new (`Grown`). Everything else
answers as before.

Whether an addition goes through can be told from the index before as well
(`Addition.Allowed`). A directory is refused exactly if a leaf is on the way or at
the path itself. A leaf is refused at the root, in the place of a directory, and
below another leaf.

Both statements are about additions in place. There a refusal comes when the walk
up has met a leaf, and the walk down, on which the index is changed, has not begun;
so what is left is the index as it was (`additions_exact`).
-/

namespace AssetUnpack

namespace NodeTree

variable {α : Type} {t t' : NodeTree α} {p q : AssetPath}

/-- Strictly above a path. -/
def Above (q p : AssetPath) : Prop := OnWay q p ∧ q ≠ p

theorem onWay_child_iff {n : Name} : OnWay q (p.child n) ↔ q = p.child n ∨ OnWay q p := by
  obtain ⟨qs⟩ := q
  unfold OnWay AssetPath.child
  rw [List.prefix_concat_iff, AssetPath.mk.injEq]

/-- What is above a path has a child on the way to it. -/
theorem above_iff : Above q p ↔ ∃ n, OnWay (q.child n) p := by
  obtain ⟨qs⟩ := q
  obtain ⟨ps⟩ := p
  constructor
  · intro h
    obtain ⟨⟨rest, hrest⟩, hne⟩ := h
    cases rest with
    | nil =>
        rw [List.append_nil] at hrest
        exact absurd (congrArg AssetPath.mk hrest) hne
    | cons n rest =>
        refine ⟨n, rest, ?_⟩
        rw [← hrest]
        simp [AssetPath.child]
  · intro h
    obtain ⟨n, hn⟩ := h
    refine ⟨AssetPath.under_of_child hn, fun heq => ?_⟩
    rw [heq] at hn
    exact AssetPath.not_under_child _ n hn

/-- What is on the way to a node is a node. -/
theorem Consistent.ne_none_of_onWay (h : t.Consistent) (hp : t.get? p ≠ none) (hq : OnWay q p) :
    t.get? q ≠ none := by
  obtain ⟨rest, hrest⟩ := hq
  obtain ⟨ps⟩ := p
  obtain rfl : q.names ++ rest = ps := hrest
  exact h.above hp

/-- What is above a node is a directory. -/
theorem Consistent.directory_of_above (h : t.Consistent) (hp : t.get? p ≠ none)
    (hq : Above q p) : t.get? q = some (.directory (t.children q)) := by
  obtain ⟨n, hn⟩ := above_iff.mp hq
  exact directory_of_mem ((h.listed q n).mpr (h.ne_none_of_onWay hp hn))

/-! ## An index with a node more -/

/-- An index that has got a node at a path, with what has to go with it. -/
structure Grown (p : AssetPath) (node : Node α) (t t' : NodeTree α) : Prop where
  there : t'.get? p = some node
  above : ∀ q, Above q p → ∃ names, t'.get? q = some (.directory names)
  /-- The name of a new node comes last in the directory above it. -/
  listed : ∀ q n, OnWay (q.child n) p → t.get? (q.child n) = none →
    t'.get? q = some (.directory (t.children q ++ [n]))
  /-- Where nothing new is listed all is as it was. -/
  other : ∀ q, q ≠ p → (∀ n, OnWay (q.child n) p → t.get? (q.child n) ≠ none) →
    t'.get? q = t.get? q

/-- A node that is there already may be given another value, and that is all. -/
theorem Consistent.grown_of_there (h : t.Consistent) (hp : t.get? p ≠ none) {node : Node α}
    (hget : ∀ q, t'.get? q = if q = p then some node else t.get? q) : Grown p node t t' := by
  refine ⟨by rw [hget, if_pos rfl], fun q hq => ⟨t.children q, ?_⟩, fun q n hq hnone => ?_,
    fun q hq _ => by rw [hget, if_neg hq]⟩
  · rw [hget, if_neg hq.2]
    exact h.directory_of_above hp hq
  · exact absurd hnone (h.ne_none_of_onWay hp hq)

/-- A node is added below a directory that was added before. -/
theorem Grown.addChild {n : Name} (h : Grown p (.directory (t.children p)) t t')
    (hnone : t.get? (p.child n) = none) (node : Node α) :
    Grown (p.child n) node t (t'.addChild p n node) := by
  have hlisted : t'.children p = t.children p := children_of_directory h.there
  refine ⟨by rw [get?_addChild, if_pos rfl], fun q hq => ?_, fun q m hq hnew => ?_,
    fun q hq hold => ?_⟩
  · rw [get?_addChild, if_neg hq.2]
    split
    · exact ⟨_, rfl⟩
    · next hne => exact h.above q ⟨(onWay_child_iff.mp hq.1).resolve_left hq.2, hne⟩
  · have hself : q ≠ p.child n := by
      intro heq
      rw [heq] at hq
      exact AssetPath.not_under_child _ m hq
    rw [get?_addChild, if_neg hself]
    rcases onWay_child_iff.mp hq with heq | hway
    · obtain ⟨rfl, rfl⟩ := AssetPath.child_injective heq
      rw [if_pos rfl, hlisted]
    · have hne : q ≠ p := by
        intro heq
        rw [heq] at hway
        exact AssetPath.not_under_child _ m hway
      rw [if_neg hne]
      exact h.listed q m hway hnew
  · have hne : q ≠ p := by
      intro heq
      rw [heq] at hold
      exact hold n (onWay_refl _) hnone
    rw [get?_addChild, if_neg hq, if_neg hne]
    exact h.other q hne fun m hm => hold m (hm.child n)

/-! ## Directories and leaves -/

theorem ensureDirectoryAt_grown (h : t.Consistent) {names : List Name}
    (hok : t.ensureDirectoryAt names = .ok t') :
    Grown ⟨names.reverse⟩ (.directory (t.children ⟨names.reverse⟩)) t t' := by
  induction names generalizing t' with
  | nil =>
      obtain ⟨children, hroot⟩ := h.root
      have hstart : t.ensureDirectoryAt [] = .ok t := h.ensureDirectory_root
      obtain rfl : t = t' := Except.ok.inj (hstart.symm.trans hok)
      show Grown .root (.directory (t.children .root)) t t
      rw [children_of_directory hroot]
      refine h.grown_of_there (by rw [hroot]; exact Option.some_ne_none _) fun q => ?_
      split
      · next heq => rw [heq, hroot]
      · rfl
  | cons n above ih =>
      cases hthere : t.get? ⟨(n :: above).reverse⟩ with
      | some node =>
          rw [ensureDirectoryAt] at hok
          simp only [hthere] at hok
          cases node with
          | leaf v => cases hok
          | directory children =>
              obtain rfl := Except.ok.inj hok
              rw [children_of_directory hthere]
              refine h.grown_of_there (by rw [hthere]; exact Option.some_ne_none _) fun q => ?_
              split
              · next heq => rw [heq, hthere]
              · rfl
      | none =>
          have hchild : (⟨above.reverse⟩ : AssetPath).child n = ⟨(n :: above).reverse⟩ := by
            simp [AssetPath.child]
          rw [ensureDirectoryAt_cons hthere] at hok
          rw [children_of_none hthere]
          rw [← hchild] at hthere ⊢
          cases habove : t.ensureDirectoryAt above with
          | error e =>
              rw [habove] at hok
              cases hok
          | ok t₁ =>
              rw [habove] at hok
              obtain rfl := Except.ok.inj hok
              exact (ih habove).addChild hthere (.directory [])

theorem ensureDirectory_grown (h : t.Consistent) (hok : t.ensureDirectory p = .ok t') :
    Grown p (.directory (t.children p)) t t' := by
  have hgrown := ensureDirectoryAt_grown h hok
  rwa [List.reverse_reverse] at hgrown

/-- Exactly where no leaf is on the way a directory can be made. -/
theorem ensureDirectory_ok_iff (h : t.Consistent) :
    (∃ t', t.ensureDirectory p = .ok t') ↔ ∀ q, OnWay q p → t.kind? q ≠ some .file := by
  constructor
  · intro hok q hq hfile
    obtain ⟨t', hok⟩ := hok
    obtain ⟨v, hv⟩ := kind?_eq_file.mp hfile
    -- The leaf would still be there, in the place of a directory.
    obtain ⟨v', hv'⟩ := (ensureDirectory_reworked hok).1.leaf q v hv
    have hgrown := ensureDirectory_grown h hok
    by_cases heq : q = p
    · rw [heq, hgrown.there] at hv'
      cases hv'
    · obtain ⟨names, hnames⟩ := hgrown.above q ⟨hq, heq⟩
      rw [hnames] at hv'
      cases hv'
  · intro hfree
    have hclear : Clear ⟨p.names.reverse.reverse⟩ t := by
      rw [List.reverse_reverse]
      intro q v hq hleaf
      exact hfree q hq (kind?_eq_file.mpr ⟨v, hleaf⟩)
    exact ensureDirectoryAt_of_clear hclear

theorem insertLeaf_grown (h : t.Consistent) {value : α} (hok : t.insertLeaf p value = .ok t') :
    Grown p (.leaf value) t t' := by
  cases hthere : t.get? p with
  | some node =>
      rw [insertLeaf] at hok
      simp only [hthere] at hok
      cases node with
      | directory children => cases hok
      | leaf old =>
          obtain rfl := Except.ok.inj hok
          exact h.grown_of_there (by rw [hthere]; exact Option.some_ne_none _) fun q =>
            get?_mk_put _ _ _ _
  | none =>
      obtain ⟨above, n, rfl⟩ := eq_child_of_ne_root (p := p) fun heq => by
        obtain ⟨names, hroot⟩ := h.root
        rw [heq, hroot] at hthere
        cases hthere
      rw [insertLeaf_of_none hthere] at hok
      cases habove : t.ensureDirectory above with
      | error e =>
          rw [habove] at hok
          cases hok
      | ok t₁ =>
          rw [habove] at hok
          obtain rfl := Except.ok.inj hok
          exact (ensureDirectory_grown h habove).addChild hthere (.leaf value)

/-- A leaf goes below directories, and below what can become one. -/
theorem insertLeaf_ok_iff (h : t.Consistent) (value : α) :
    (∃ t', t.insertLeaf p value = .ok t') ↔ p ≠ .root ∧ t.kind? p ≠ some .directory ∧
      ∀ q, Above q p → t.kind? q ≠ some .file := by
  constructor
  · intro hok
    obtain ⟨t', hok⟩ := hok
    refine ⟨fun hroot => ?_, fun hdir => ?_, fun q hq hfile => ?_⟩
    · obtain ⟨e, he⟩ := h.insertLeaf_root value
      rw [hroot, he] at hok
      cases hok
    · obtain ⟨names, hnames⟩ := kind?_eq_directory.mp hdir
      rw [insertLeaf, hnames] at hok
      cases hok
    · obtain ⟨v, hv⟩ := kind?_eq_file.mp hfile
      have hinsert : t.insert .file p value = .ok t' := hok
      obtain ⟨v', hv'⟩ := (insert_reworked hinsert).leaf q v hv
      obtain ⟨names, hnames⟩ := (insertLeaf_grown h hok).above q hq
      rw [hnames] at hv'
      cases hv'
  · intro hallowed
    obtain ⟨hroot, hdir, hfree⟩ := hallowed
    cases hthere : t.get? p with
    | some node =>
        cases node with
        | directory names => exact absurd (kind?_eq_directory.mpr ⟨names, hthere⟩) hdir
        | leaf old => exact ⟨_, by rw [insertLeaf, hthere]⟩
    | none =>
        obtain ⟨above, n, rfl⟩ := eq_child_of_ne_root hroot
        have habove : ∃ t', t.ensureDirectory above = .ok t' := by
          refine (ensureDirectory_ok_iff h).mpr fun q hq => hfree q ⟨hq.child n, fun heq => ?_⟩
          rw [heq] at hq
          exact AssetPath.not_under_child _ n hq
        obtain ⟨t₁, ht₁⟩ := habove
        exact ⟨_, by rw [insertLeaf_of_none hthere, ht₁]; rfl⟩

end NodeTree

/-! ## Additions in place -/

/-- A call that adds a node to an index. -/
inductive Addition (α : Type)
  | leaf (path : AssetPath) (value : α)
  | directory (path : AssetPath)
  deriving DecidableEq

namespace Addition

variable {α : Type}

def path : Addition α → AssetPath
  | leaf p _ => p
  | directory p => p

/-- The node that a call asks for. A directory that is there keeps what it lists. -/
def node (t : NodeTree α) : Addition α → Node α
  | leaf _ value => .leaf value
  | directory p => .directory (t.children p)

/-- Whether an index has room for what a call asks for. -/
def Allowed (t : NodeTree α) : Addition α → Prop
  | leaf p _ => p ≠ .root ∧ t.kind? p ≠ some .directory ∧
      ∀ q, NodeTree.Above q p → t.kind? q ≠ some .file
  | directory p => ∀ q, NodeTree.OnWay q p → t.kind? q ≠ some .file

/-- What a call does to an index in place. -/
def inPlace : Addition α → EStateM InvalidPath (NodeTree α) Unit
  | leaf p value => NodeTree.insertLeafInPlace p value
  | directory p => NodeTree.ensureDirectoryInPlace p.names.reverse

/-- The index that a call gives, if it succeeds. -/
def insertInto (t : NodeTree α) : Addition α → Except InvalidPath (NodeTree α)
  | leaf p value => t.insertLeaf p value
  | directory p => t.ensureDirectory p

/-- The index that a call leaves, be it refused or not. -/
def leaves (t : NodeTree α) (a : Addition α) : NodeTree α :=
  match a.inPlace t with
  | .ok _ t' => t'
  | .error _ t' => t'

variable {t t' : NodeTree α} {a : Addition α}

theorem inPlace_landed (a : Addition α) (t : NodeTree α) :
    a.inPlace t = t.landed (a.insertInto t) := by
  cases a with
  | leaf p value => exact NodeTree.insertLeafInPlace_eq p value t
  | directory p => exact NodeTree.ensureDirectoryInPlace_eq p.names.reverse t

theorem inPlace_eq_ok : a.inPlace t = .ok () t' ↔ a.insertInto t = .ok t' := by
  rw [a.inPlace_landed]
  cases a.insertInto t with
  | error e => exact ⟨nofun, nofun⟩
  | ok t₁ => exact ⟨fun h => by cases h; rfl, fun h => by cases h; rfl⟩

theorem eq_of_inPlace_error {e : InvalidPath} (h : a.inPlace t = .error e t') : t' = t := by
  rw [a.inPlace_landed] at h
  cases hok : a.insertInto t with
  | ok t₁ =>
      rw [hok] at h
      cases h
  | error e' =>
      rw [hok] at h
      cases h
      rfl

theorem insertInto_ok_iff (h : t.Consistent) (a : Addition α) :
    (∃ t', a.insertInto t = .ok t') ↔ a.Allowed t := by
  cases a with
  | leaf p value => exact NodeTree.insertLeaf_ok_iff h value
  | directory p => exact NodeTree.ensureDirectory_ok_iff h

theorem insertInto_grown (h : t.Consistent) (hok : a.insertInto t = .ok t') :
    NodeTree.Grown a.path (a.node t) t t' := by
  cases a with
  | leaf p value => exact NodeTree.insertLeaf_grown h hok
  | directory p => exact NodeTree.ensureDirectory_grown h hok

theorem leaves_consistent (h : t.Consistent) (a : Addition α) : (a.leaves t).Consistent := by
  unfold leaves
  rw [a.inPlace_landed]
  cases hok : a.insertInto t with
  | error e => exact h
  | ok t₁ =>
      cases a with
      | leaf p value => exact h.insertLeaf hok
      | directory p => exact h.ensureDirectory hok

end Addition

namespace NodeTree

variable {α : Type}

/-- The index that calls leave, in their order, starting with the empty one. -/
def after (calls : List (Addition α)) : NodeTree α := calls.foldl Addition.leaves empty

theorem after_consistent (calls : List (Addition α)) : (after calls).Consistent :=
  List.foldlRecOn calls _ consistent_empty fun _ ht a _ => a.leaves_consistent ht

/-- Whatever was called before, a call goes through exactly if there is room for its
node; then it adds that node with what has to go with it, and otherwise it leaves the
index as it was. -/
theorem additions_exact (calls : List (Addition α)) (a : Addition α) :
    ((∃ t', a.inPlace (after calls) = .ok () t') ↔ a.Allowed (after calls)) ∧
      (∀ t', a.inPlace (after calls) = .ok () t' →
        Grown a.path (a.node (after calls)) (after calls) t') ∧
      ∀ e t', a.inPlace (after calls) = .error e t' → t' = after calls := by
  have hc := after_consistent calls
  refine ⟨?_, fun t' h => ?_, fun e t' h => Addition.eq_of_inPlace_error h⟩
  · rw [← Addition.insertInto_ok_iff hc]
    exact exists_congr fun t' => Addition.inPlace_eq_ok
  · exact Addition.insertInto_grown hc (Addition.inPlace_eq_ok.mp h)

end NodeTree

end AssetUnpack
