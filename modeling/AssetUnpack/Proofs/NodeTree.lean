import AssetUnpack.Source.Memory

/-!
# An index hangs together

Every index that insertions lead to from the empty one is a tree. Its root is a
directory, a name is listed below a path exactly if a node is there, and no name
is listed twice (`Consistent`). An insertion adds nodes one at a time, each below
a directory that is there, so all that has to be seen is that adding one child
keeps this (`Consistent.addChild`).
-/

namespace AssetUnpack

/-- The path one name below a path. -/
def AssetPath.child (p : AssetPath) (n : Name) : AssetPath := ⟨p.names ++ [n]⟩

namespace AssetPath

theorem child_injective {p q : AssetPath} {n m : Name} (h : p.child n = q.child m) :
    p = q ∧ n = m := by
  obtain ⟨ps⟩ := p
  obtain ⟨qs⟩ := q
  have h' : ps ++ [n] = qs ++ [m] := congrArg AssetPath.names h
  obtain ⟨rfl, hn⟩ := List.append_inj' h' rfl
  exact ⟨rfl, (List.cons.inj hn).1⟩

theorem child_ne_self (p : AssetPath) (n : Name) : p.child n ≠ p := by
  intro h
  have hlen := congrArg (fun q : AssetPath => q.names.length) h
  simp [child] at hlen

/-- Whether a path is this one or lies below it. -/
def Under (q x : AssetPath) : Prop := q.names <+: x.names

theorem under_refl (q : AssetPath) : q.Under q := List.prefix_refl _

theorem Under.trans {p q x : AssetPath} (h : p.Under q) (h' : q.Under x) : p.Under x :=
  List.IsPrefix.trans h h'

theorem under_of_child {q x : AssetPath} {n : Name} (h : (q.child n).Under x) : q.Under x :=
  (List.prefix_append q.names [n]).trans h

theorem not_under_child (q : AssetPath) (n : Name) : ¬ (q.child n).Under q := by
  intro h
  have hle := h.length_le
  simp only [child, List.length_append, List.length_singleton] at hle
  omega

/-- Nothing is below two children of a path. -/
theorem child_apart {q x : AssetPath} {n m : Name} (hne : n ≠ m)
    (hn : (q.child n).names <+: x.names) : ¬ (q.child m).names <+: x.names := by
  obtain ⟨rest, hx⟩ := hn
  rintro ⟨rest', hx'⟩
  rw [← hx'] at hx
  simp only [child, List.append_assoc, List.cons_append, List.nil_append] at hx
  exact hne (List.cons.inj (List.append_cancel_left hx)).1

theorem child_ne_root (p : AssetPath) (n : Name) : p.child n ≠ .root := by
  intro h
  exact absurd (congrArg AssetPath.names h) (by simp [child, root])

theorem parent?_child (p : AssetPath) (n : Name) : (p.child n).parent? = some p := by
  simp [parent?, child]

theorem fileName?_child (p : AssetPath) (n : Name) : (p.child n).fileName? = some n := by
  simp [fileName?, child]

theorem isRoot_iff {p : AssetPath} : p.isRoot = true ↔ p = .root := by
  obtain ⟨names⟩ := p
  simp [isRoot, root]

/-- The path of an asset that is given relative to a base. -/
def append (base q : AssetPath) : AssetPath := ⟨base.names ++ q.names⟩

theorem append_root (base : AssetPath) : base.append .root = base := by
  simp [append, root]

theorem append_child (base q : AssetPath) (n : Name) :
    base.append (q.child n) = (base.append q).child n := by
  simp [append, child]

theorem append_injective {base p q : AssetPath} (h : base.append p = base.append q) : p = q := by
  obtain ⟨ps⟩ := p
  obtain ⟨qs⟩ := q
  simpa [append] using h

theorem stripBase?_eq_some {p root q : AssetPath} :
    p.stripBase? root = some q ↔ p = root.append q := by
  obtain ⟨ps⟩ := p
  obtain ⟨rs⟩ := root
  obtain ⟨qs⟩ := q
  unfold stripBase? startsWith
  constructor
  · intro h
    split at h
    · next hprefix =>
        obtain ⟨rest, rfl⟩ := List.isPrefixOf_iff_prefix.mp hprefix
        simp only [depth, List.drop_left, Option.some.injEq, mk.injEq] at h
        rw [h]
        rfl
    · cases h
  · intro h
    obtain rfl : ps = rs ++ qs := congrArg names h
    rw [if_pos (List.isPrefixOf_iff_prefix.mpr (List.prefix_append rs qs))]
    simp [depth]

end AssetPath

namespace NodeTree

variable {α : Type} {t t' : NodeTree α}

/-- An index whose nodes and listings agree. -/
structure Consistent (t : NodeTree α) : Prop where
  root : ∃ names, t.get? .root = some (.directory names)
  listed : ∀ p n, n ∈ t.children p ↔ t.get? (p.child n) ≠ none
  nodup : ∀ p, (t.children p).Nodup
  keys : t.nodes.keys.Nodup

theorem children_of_directory {p : AssetPath} {names : List Name}
    (h : t.get? p = some (.directory names)) : t.children p = names := by
  rw [children, h]

theorem children_of_none {p : AssetPath} (h : t.get? p = none) : t.children p = [] := by
  rw [children, h]

theorem children_of_leaf {p : AssetPath} {value : α} (h : t.get? p = some (.leaf value)) :
    t.children p = [] := by
  rw [children, h]

/-- Only a directory lists anything. -/
theorem directory_of_mem {p : AssetPath} {n : Name} (h : n ∈ t.children p) :
    t.get? p = some (.directory (t.children p)) := by
  unfold children at h ⊢
  split
  · next names hp => exact hp
  · next hp =>
      split at h
      · next names hp' => exact absurd hp' (hp names)
      · cases h

/-- Above a node there is a node. -/
theorem Consistent.above (h : t.Consistent) {a b : List Name} (hnode : t.get? ⟨a ++ b⟩ ≠ none) :
    t.get? ⟨a⟩ ≠ none := by
  induction b generalizing a with
  | nil => rwa [List.append_nil] at hnode
  | cons n b ih =>
      rw [List.append_cons] at hnode
      have hmem : n ∈ t.children ⟨a⟩ := (h.listed ⟨a⟩ n).mpr (ih hnode)
      intro hnone
      rw [children_of_none hnone] at hmem
      cases hmem

theorem kind?_ne_none {p : AssetPath} : t.kind? p ≠ none ↔ t.get? p ≠ none := by
  rw [kind?, Ne, Option.map_eq_none_iff]

theorem kind?_eq_file {p : AssetPath} :
    t.kind? p = some .file ↔ ∃ value, t.get? p = some (.leaf value) := by
  unfold kind?
  cases t.get? p with
  | none => simp
  | some node => cases node <;> simp

theorem kind?_eq_directory {p : AssetPath} :
    t.kind? p = some .directory ↔ ∃ names, t.get? p = some (.directory names) := by
  unfold kind?
  cases t.get? p with
  | none => simp
  | some node => cases node <;> simp

theorem get?_mk_put (nodes : Table AssetPath (Node α)) (p q : AssetPath) (node : Node α) :
    (⟨nodes.put p node⟩ : NodeTree α).get? q =
      if q = p then some node else (⟨nodes⟩ : NodeTree α).get? q :=
  Table.get?_put nodes p q node

theorem get?_empty (q : AssetPath) :
    (empty : NodeTree α).get? q = if q = .root then some (.directory []) else none :=
  get?_mk_put _ .root q _

theorem nodup_snoc {β : Type} {l : List β} {a : β} (h : l.Nodup) (ha : a ∉ l) :
    (l ++ [a]).Nodup := by
  rw [List.nodup_append]
  refine ⟨h, by simp, fun b hb c hc => ?_⟩
  rw [List.mem_singleton.mp hc]
  rintro rfl
  exact ha hb

theorem consistent_empty : (empty : NodeTree α).Consistent := by
  have hchildren : ∀ p, (empty : NodeTree α).children p = [] := by
    intro p
    by_cases hp : p = .root
    · exact children_of_directory (by rw [get?_empty, if_pos hp])
    · exact children_of_none (by rw [get?_empty, if_neg hp])
  refine ⟨⟨[], by rw [get?_empty, if_pos rfl]⟩, fun p n => ?_, fun p => ?_, ?_⟩
  · rw [hchildren, get?_empty, if_neg (p.child_ne_root n)]
    simp
  · rw [hchildren]
    exact List.nodup_nil
  · have hnil : (Table.empty : Table AssetPath (Node α)).keys.Nodup := List.nodup_nil
    exact Table.keys_put_nodup hnil _ _

/-- Without directories of its own a new node lists nothing. -/
def Bare : Node α → Prop
  | .leaf _ => True
  | .directory names => names = []

/-- The index with a node added below a directory that does not list it yet. -/
def addChild (t : NodeTree α) (parent : AssetPath) (name : Name) (node : Node α) : NodeTree α :=
  ⟨(t.nodes.put parent (.directory (t.children parent ++ [name]))).put (parent.child name) node⟩

theorem get?_addChild (t : NodeTree α) (parent : AssetPath) (name : Name) (node : Node α)
    (q : AssetPath) :
    (t.addChild parent name node).get? q =
      if q = parent.child name then some node
      else if q = parent then some (.directory (t.children parent ++ [name]))
      else t.get? q := by
  rw [addChild, get?_mk_put, get?_mk_put]

theorem children_addChild {parent : AssetPath} {name : Name} {node : Node α}
    (hbare : Bare node) (q : AssetPath) :
    (t.addChild parent name node).children q =
      if q = parent.child name then []
      else if q = parent then t.children parent ++ [name]
      else t.children q := by
  rw [children, get?_addChild]
  split
  · next h =>
      split at h
      · next hq =>
          rw [if_pos hq]
          rw [Option.some.inj h] at hbare
          exact hbare
      split at h
      · next hq hq' =>
          rw [if_neg hq, if_pos hq']
          exact (Node.directory.inj (Option.some.inj h)).symm
      · next hq hq' =>
          rw [if_neg hq, if_neg hq', children_of_directory h]
  · next h =>
      split at h
      · next hq => rw [if_pos hq]
      split at h
      · exact absurd rfl (h _)
      · next hq hq' =>
          rw [if_neg hq, if_neg hq', children]
          split
          · next names hn => exact absurd hn (h names)
          · rfl

theorem Consistent.addChild (h : t.Consistent) {parent : AssetPath} {names : List Name}
    {name : Name} {node : Node α} (hparent : t.get? parent = some (.directory names))
    (hfree : t.get? (parent.child name) = none) (hbare : Bare node) :
    (t.addChild parent name node).Consistent := by
  have hnew : name ∉ t.children parent := fun hm => (h.listed parent name).mp hm hfree
  have hchildren : ∀ q, (t.addChild parent name node).children q =
      if q = parent.child name then []
      else if q = parent then t.children parent ++ [name]
      else t.children q := children_addChild hbare
  refine ⟨?_, fun p n => ?_, fun p => ?_, ?_⟩
  · rw [get?_addChild, if_neg (parent.child_ne_root name).symm]
    by_cases hroot : AssetPath.root = parent
    · exact ⟨_, if_pos hroot⟩
    · rw [if_neg hroot]
      exact h.root
  · rw [hchildren, get?_addChild]
    by_cases hp : p = parent
    · subst hp
      rw [if_neg (p.child_ne_self name).symm, if_pos rfl]
      by_cases hn : n = name
      · rw [if_pos (by rw [hn]), hn]
        simp
      · rw [if_neg (fun hc => hn (AssetPath.child_injective hc).2),
          if_neg (p.child_ne_self n), ← h.listed]
        simp [hn]
    · rw [if_neg (fun hc => hp (AssetPath.child_injective hc).1)]
      have hstill : (if p.child n = parent then
          some (.directory (t.children parent ++ [name])) else t.get? (p.child n)) ≠ none ↔
          t.get? (p.child n) ≠ none := by
        split
        · next hc => simp [hc, hparent]
        · exact Iff.rfl
      rw [hstill, if_neg hp, ← h.listed]
      split
      · next hc => rw [hc, children_of_none hfree]
      · exact Iff.rfl
  · rw [hchildren]
    split
    · exact List.nodup_nil
    split
    · exact nodup_snoc (h.nodup parent) hnew
    · exact h.nodup p
  · exact Table.keys_put_nodup (Table.keys_put_nodup h.keys _ _) _ _

/-! ## Insertions -/

/-- What adding a directory leads to: a consistent index with a directory there,
in which everything deeper is as it was, and every leaf. -/
theorem Consistent.ensureDirectoryAt (h : t.Consistent) {names : List Name}
    (hok : t.ensureDirectoryAt names = .ok t') :
    t'.Consistent ∧ (∃ children, t'.get? ⟨names.reverse⟩ = some (.directory children)) ∧
      ∀ p : AssetPath, names.length < p.depth → t'.get? p = t.get? p := by
  induction names generalizing t' with
  | nil =>
      obtain ⟨children, hroot⟩ := h.root
      rw [NodeTree.ensureDirectoryAt, hroot] at hok
      obtain rfl := Except.ok.inj hok
      exact ⟨h, ⟨children, hroot⟩, fun _ _ => rfl⟩
  | cons name above ih =>
      rw [NodeTree.ensureDirectoryAt] at hok
      simp only [] at hok
      split at hok
      · next children hdir =>
          obtain rfl := Except.ok.inj hok
          exact ⟨h, ⟨children, hdir⟩, fun _ _ => rfl⟩
      · cases hok
      · next hnone =>
          split at hok
          · cases hok
          · next t₁ habove =>
              obtain ⟨h₁, ⟨children, hparent⟩, hframe⟩ := ih habove
              have hchild : (⟨above.reverse⟩ : AssetPath).child name =
                  ⟨(name :: above).reverse⟩ := by
                simp [AssetPath.child]
              have hfree : t₁.get? ((⟨above.reverse⟩ : AssetPath).child name) = none := by
                rw [hframe _ (by simp [AssetPath.child, AssetPath.depth]), hchild]
                exact hnone
              have heq : t₁.addChild ⟨above.reverse⟩ name (.directory []) = t' := by
                rw [NodeTree.addChild, hchild]
                exact Except.ok.inj hok
              rw [← heq, ← hchild]
              refine ⟨h₁.addChild hparent hfree rfl, ⟨[], by rw [get?_addChild, if_pos rfl]⟩,
                fun p hp => ?_⟩
              have hp₁ : p ≠ (⟨above.reverse⟩ : AssetPath).child name := by
                rintro rfl
                simp [AssetPath.child, AssetPath.depth] at hp
              have hp₂ : p ≠ ⟨above.reverse⟩ := by
                rintro rfl
                simp only [AssetPath.depth, List.length_reverse, List.length_cons] at hp
                omega
              rw [get?_addChild, if_neg hp₁, if_neg hp₂,
                hframe p (Nat.lt_of_succ_lt (by simpa using hp))]

theorem Consistent.ensureDirectory (h : t.Consistent) {p : AssetPath}
    (hok : t.ensureDirectory p = .ok t') : t'.Consistent :=
  (h.ensureDirectoryAt hok).1

/-- The directory at the root is there from the start. -/
theorem Consistent.ensureDirectory_root (h : t.Consistent) : t.ensureDirectory .root = .ok t := by
  obtain ⟨names, hroot⟩ := h.root
  have hstart : t.ensureDirectory .root = t.ensureDirectoryAt [] := rfl
  rw [hstart, NodeTree.ensureDirectoryAt, hroot]

theorem Consistent.put_leaf (h : t.Consistent) {p : AssetPath} {old : α}
    (hold : t.get? p = some (.leaf old)) (value : α) :
    (⟨t.nodes.put p (.leaf value)⟩ : NodeTree α).Consistent := by
  have hget := fun q => get?_mk_put t.nodes p q (.leaf value)
  have hchildren : ∀ q, (⟨t.nodes.put p (.leaf value)⟩ : NodeTree α).children q = t.children q := by
    intro q
    by_cases hq : q = p
    · rw [hq, children_of_leaf hold]
      exact children_of_leaf (by rw [hget, if_pos rfl])
    · rw [children, children, hget, if_neg hq]
  refine ⟨?_, fun q n => ?_, fun q => ?_, Table.keys_put_nodup h.keys _ _⟩
  · rw [hget, if_neg]
    · exact h.root
    · rintro rfl
      obtain ⟨names, hroot⟩ := h.root
      rw [hroot] at hold
      cases hold
  · rw [hchildren, h.listed, hget]
    split
    · next hq => simp [hq, hold]
    · exact Iff.rfl
  · rw [hchildren]
    exact h.nodup q

theorem Consistent.insertLeaf (h : t.Consistent) {p : AssetPath} {value : α}
    (hok : t.insertLeaf p value = .ok t') : t'.Consistent := by
  unfold NodeTree.insertLeaf at hok
  split at hok
  · cases hok
  · next old hold =>
      rw [← Except.ok.inj hok]
      exact h.put_leaf hold value
  · next hnone =>
      split at hok
      · cases hok
      · next name above hnames =>
          split at hok
          · cases hok
          · next t₁ habove =>
              obtain ⟨h₁, ⟨children, hparent⟩, hframe⟩ := h.ensureDirectoryAt habove
              have hchild : (⟨above.reverse⟩ : AssetPath).child name = p := by
                obtain ⟨ps⟩ := p
                have hps : ps = (name :: above).reverse := by
                  rw [← hnames, List.reverse_reverse]
                simp [AssetPath.child, hps]
              have hfree : t₁.get? ((⟨above.reverse⟩ : AssetPath).child name) = none := by
                rw [hframe _ (by simp [AssetPath.child, AssetPath.depth]), hchild]
                exact hnone
              have heq : t₁.addChild ⟨above.reverse⟩ name (.leaf value) = t' := by
                rw [NodeTree.addChild, hchild]
                exact Except.ok.inj hok
              rw [← heq]
              exact h₁.addChild hparent hfree trivial

/-- The index after an insertion. One that fails leaves it as it was. -/
def settle (t : NodeTree α) : Except InvalidPath (NodeTree α) → NodeTree α
  | .ok t' => t'
  | .error _ => t

end NodeTree

/-- The trees in memory that insertions lead to, starting with the empty one. An
insertion that fails changes nothing, so it is left out. -/
inductive MemoryTree.Built : MemoryTree → Prop
  | empty : Built NodeTree.empty
  | file {t t' : MemoryTree} (h : Built t) (path : String) (content : Bytes)
      (hok : t.insertFile path content = .ok t') : Built t'
  | directory {t t' : MemoryTree} (h : Built t) (path : String)
      (hok : t.insertDirectory path = .ok t') : Built t'

theorem MemoryTree.Built.consistent {t : MemoryTree} (h : t.Built) : t.Consistent := by
  induction h with
  | empty => exact NodeTree.consistent_empty
  | file _ path content hok ih =>
      unfold insertFile at hok
      cases hparse : AssetPath.parse path with
      | error e =>
          rw [hparse] at hok
          cases hok
      | ok p =>
          rw [hparse] at hok
          exact ih.insertLeaf hok
  | directory _ path hok ih =>
      unfold insertDirectory at hok
      cases hparse : AssetPath.parse path with
      | error e =>
          rw [hparse] at hok
          cases hok
      | ok p =>
          rw [hparse] at hok
          exact ih.ensureDirectory hok

end AssetUnpack
