import AssetUnpack.Proofs.NodeTree.InPlace

/-!
# The part of an index below a path

An archive can be indexed as a whole or below a scope, and then every entry is
inserted twice, under its path in the one index and under what is left of that
path in the other. `PartOf` relates the two indexes: below the scope they have
the same nodes, and the root of the one lists what the scope lists in the other.
At the scope itself they may differ, for a root is always there.

Outside the scope the second index has no say (`PartOf.accept_outside`). Below it
both insertions go up to the nearest directory that is there and down again, and
meet the same nodes on the way; where the one has come up to its root the other
goes on up, and that part of the way must not end at a file (`Clear`). An index
never loses a file, so it is enough that there is none in the end
(`Clear.of_foldl`).
-/

namespace AssetUnpack

/-- An entry of an archive with a path. -/
structure Usable (α : Type) where
  path : AssetPath
  kind : NodeKind
  value : α

namespace NodeTree

variable {α : Type} {t t' w w' : NodeTree α} {scope p q : AssetPath} {value : α}

/-- Insert a node of a kind. -/
def insert (t : NodeTree α) (kind : NodeKind) (p : AssetPath) (value : α) :
    Except InvalidPath (NodeTree α) :=
  match kind with
  | .file => t.insertLeaf p value
  | .directory => t.ensureDirectory p

/-- The index after an entry; only what is below the scope can change it. -/
def accept (scope : AssetPath) (t : NodeTree α) (e : Usable α) : NodeTree α :=
  match e.path.stripBase? scope with
  | none => t
  | some p => t.settle (t.insert e.kind p e.value)

theorem accept_of_none {e : Usable α} (h : e.path.stripBase? scope = none) :
    t.accept scope e = t := by
  rw [accept, h]

theorem accept_of_some {e : Usable α} (h : e.path.stripBase? scope = some p) :
    t.accept scope e = t.settle (t.insert e.kind p e.value) := by
  rw [accept, h]

/-- The index that entries come to. -/
def acceptAll (scope : AssetPath) (es : List (Usable α)) : NodeTree α :=
  es.foldl (accept scope) empty

theorem Consistent.insert (h : t.Consistent) {kind : NodeKind}
    (hok : t.insert kind p value = .ok t') : t'.Consistent := by
  cases kind with
  | file => exact h.insertLeaf hok
  | directory => exact h.ensureDirectory hok

theorem Consistent.accept (h : t.Consistent) (scope : AssetPath) (e : Usable α) :
    (t.accept scope e).Consistent := by
  unfold NodeTree.accept
  split
  · exact h
  · next p _ =>
      cases hok : t.insert e.kind p e.value with
      | error _ => exact h
      | ok t' => exact h.insert hok

/-! ## What an insertion leaves alone

It changes nodes on the way to its path and no others, and no file on that way
turns into anything else. -/

/-- On the way to a path, the path itself included. -/
def OnWay (q p : AssetPath) : Prop := q.names <+: p.names

instance (q p : AssetPath) : Decidable (OnWay q p) := inferInstanceAs (Decidable (_ <+: _))

theorem onWay_refl (p : AssetPath) : OnWay p p := List.prefix_refl _

theorem OnWay.child (h : OnWay q p) (n : Name) : OnWay q (p.child n) :=
  List.IsPrefix.trans h (List.prefix_append _ _)

/-- An index and what has become of it by nodes on the way to a path. -/
structure Reworked (p : AssetPath) (t t' : NodeTree α) : Prop where
  other : ∀ q, ¬ OnWay q p → t'.get? q = t.get? q
  leaf : ∀ q v, t.get? q = some (.leaf v) → ∃ v', t'.get? q = some (.leaf v')
  fresh : ∀ q v, t'.get? q = some (.leaf v) → q = p ∨ ∃ v', t.get? q = some (.leaf v')

theorem reworked_refl (p : AssetPath) (t : NodeTree α) : Reworked p t t :=
  ⟨fun _ _ => rfl, fun _ v h => ⟨v, h⟩, fun _ v h => Or.inr ⟨v, h⟩⟩

theorem Reworked.addChild {n : Name} {children : List Name} (h : Reworked p t t')
    (hnone : t.get? (p.child n) = none) (hdir : t'.get? p = some (.directory children))
    (node : Node α) : Reworked (p.child n) t (t'.addChild p n node) := by
  refine ⟨fun q hq => ?_, fun q v hq => ?_, fun q v hq => ?_⟩
  · have hchild : q ≠ p.child n := by
      rintro rfl
      exact hq (onWay_refl _)
    have hparent : q ≠ p := by
      rintro rfl
      exact hq ((onWay_refl _).child n)
    rw [get?_addChild, if_neg hchild, if_neg hparent]
    exact h.other q fun hway => hq (hway.child n)
  · obtain ⟨v', hv'⟩ := h.leaf q v hq
    have hchild : q ≠ p.child n := by
      rintro rfl
      simp [hnone] at hq
    have hparent : q ≠ p := by
      rintro rfl
      simp [hdir] at hv'
    rw [get?_addChild, if_neg hchild, if_neg hparent]
    exact ⟨v', hv'⟩
  · rw [get?_addChild] at hq
    split at hq
    · next hchild => exact Or.inl hchild
    split at hq
    · cases hq
    · next hparent => exact Or.inr ((h.fresh q v hq).resolve_left hparent)

theorem Reworked.put {node : Node α}
    (hput : ∀ v, t.get? p = some (.leaf v) → ∃ v', node = .leaf v') : Reworked p t ⟨t.nodes.put p node⟩ := by
  refine ⟨fun q hq => ?_, fun q v hq => ?_, fun q v hq => ?_⟩
  · have hne : q ≠ p := by
      rintro rfl
      exact hq (onWay_refl _)
    rw [get?_mk_put, if_neg hne]
  · rw [get?_mk_put]
    split
    · next heq =>
        obtain ⟨v', rfl⟩ := hput v (heq ▸ hq)
        exact ⟨v', rfl⟩
    · exact ⟨v, hq⟩
  · rw [get?_mk_put] at hq
    split at hq
    · next heq => exact Or.inl heq
    · exact Or.inr ⟨v, hq⟩

/-- A directory that had to be made was made below one that is there. -/
theorem ensureDirectoryAt_cons {n : Name} {above : List Name}
    (hnone : t.get? ⟨(n :: above).reverse⟩ = none) :
    t.ensureDirectoryAt (n :: above) =
      (t.ensureDirectoryAt above).map fun t' => t'.addChild ⟨above.reverse⟩ n (.directory []) := by
  have hchild : (⟨above.reverse⟩ : AssetPath).child n = ⟨(n :: above).reverse⟩ := by
    simp [AssetPath.child]
  rw [ensureDirectoryAt]
  simp only [hnone]
  cases t.ensureDirectoryAt above with
  | error e => rfl
  | ok t' => simp only [Except.map, NodeTree.addChild, hchild]

theorem insertLeaf_of_none {n : Name} (hnone : t.get? (p.child n) = none) (value : α) :
    t.insertLeaf (p.child n) value =
      (t.ensureDirectory p).map fun t' => t'.addChild p n (.leaf value) := by
  have hnames : (p.child n).names.reverse = n :: p.names.reverse := by
    simp [AssetPath.child]
  have hparent : (⟨p.names.reverse.reverse⟩ : AssetPath) = p := by
    simp
  rw [insertLeaf]
  simp only [hnone, hnames, hparent, ensureDirectory]
  cases t.ensureDirectoryAt p.names.reverse <;> rfl

theorem ensureDirectoryAt_reworked {names : List Name} (hok : t.ensureDirectoryAt names = .ok t') :
    Reworked ⟨names.reverse⟩ t t' ∧
      t'.get? ⟨names.reverse⟩ = some (.directory (t.children ⟨names.reverse⟩)) := by
  induction names generalizing t' with
  | nil =>
      show Reworked .root t t' ∧ t'.get? .root = some (.directory (t.children .root))
      rw [ensureDirectoryAt] at hok
      split at hok
      · next children hroot =>
          obtain rfl := Except.ok.inj hok
          rw [children_of_directory hroot]
          exact ⟨reworked_refl _ _, hroot⟩
      · cases hok
      · next hnone =>
          obtain rfl := Except.ok.inj hok
          refine ⟨Reworked.put fun v hv => ?_, ?_⟩
          · simp [hnone] at hv
          · rw [get?_mk_put, if_pos rfl, children_of_none hnone]
  | cons n above ih =>
      have hchild : (⟨above.reverse⟩ : AssetPath).child n = ⟨(n :: above).reverse⟩ := by
        simp [AssetPath.child]
      cases hthere : t.get? ⟨(n :: above).reverse⟩ with
      | some node =>
          rw [ensureDirectoryAt] at hok
          simp only [hthere] at hok
          cases node with
          | leaf v => cases hok
          | directory children =>
              obtain rfl := Except.ok.inj hok
              rw [children_of_directory hthere]
              exact ⟨reworked_refl _ _, hthere⟩
      | none =>
          rw [ensureDirectoryAt_cons hthere] at hok
          cases habove : t.ensureDirectoryAt above with
          | error e =>
              rw [habove] at hok
              cases hok
          | ok t₁ =>
              rw [habove] at hok
              obtain rfl := Except.ok.inj hok
              obtain ⟨hreworked, hdir⟩ := ih habove
              rw [← hchild] at hthere ⊢
              refine ⟨hreworked.addChild hthere hdir _, ?_⟩
              rw [get?_addChild, if_pos rfl, children_of_none hthere]

theorem eq_child_of_ne_root (h : p ≠ .root) :
    ∃ (above : AssetPath) (n : Name), p = above.child n := by
  obtain ⟨ps⟩ := p
  rcases List.eq_nil_or_concat ps with rfl | ⟨above, n, rfl⟩
  · exact absurd rfl h
  · exact ⟨⟨above⟩, n, by simp [AssetPath.child]⟩

theorem ensureDirectory_reworked (hok : t.ensureDirectory p = .ok t') :
    Reworked p t t' ∧ t'.get? p = some (.directory (t.children p)) := by
  have h := ensureDirectoryAt_reworked hok
  rwa [List.reverse_reverse] at h

theorem insert_reworked {kind : NodeKind} (hok : t.insert kind p value = .ok t') :
    Reworked p t t' := by
  cases kind with
  | directory => exact (ensureDirectory_reworked hok).1
  | file =>
      have hinsert : t.insertLeaf p value = .ok t' := hok
      cases hthere : t.get? p with
      | some node =>
          rw [insertLeaf] at hinsert
          simp only [hthere] at hinsert
          cases node with
          | directory children => cases hinsert
          | leaf old =>
              obtain rfl := Except.ok.inj hinsert
              exact Reworked.put fun _ _ => ⟨value, rfl⟩
      | none =>
          by_cases hroot : p = .root
          · rw [insertLeaf] at hinsert
            simp only [hthere] at hinsert
            subst hroot
            cases hinsert
          obtain ⟨above, n, rfl⟩ := eq_child_of_ne_root hroot
          rw [insertLeaf_of_none hthere] at hinsert
          cases habove : t.ensureDirectory above with
          | error e =>
              rw [habove] at hinsert
              cases hinsert
          | ok t₁ =>
              rw [habove] at hinsert
              obtain rfl := Except.ok.inj hinsert
              obtain ⟨hreworked, hdir⟩ := ensureDirectory_reworked habove
              exact hreworked.addChild hthere hdir _

/-- Only inserting a file makes one, at its path. -/
theorem leaf_of_insert {kind : NodeKind} {v : α} (hok : t.insert kind p value = .ok t')
    (hleaf : t'.get? q = some (.leaf v)) :
    (kind = .file ∧ q = p) ∨ ∃ v', t.get? q = some (.leaf v') := by
  rcases (insert_reworked hok).fresh q v hleaf with rfl | hold
  · cases kind with
    | file => exact Or.inl ⟨rfl, rfl⟩
    | directory =>
        rw [(ensureDirectory_reworked hok).2] at hleaf
        cases hleaf
  · exact Or.inr hold

/-- The root of an index is a directory and stays one. -/
theorem Consistent.insertLeaf_root (h : t.Consistent) (value : α) :
    ∃ e, t.insertLeaf .root value = .error e := by
  obtain ⟨names, hroot⟩ := h.root
  rw [NodeTree.insertLeaf, hroot]
  exact ⟨_, rfl⟩

/-! ## The way to the scope -/

/-- No file stands at a path or above it. -/
def Clear (scope : AssetPath) (w : NodeTree α) : Prop :=
  ∀ q v, OnWay q scope → w.get? q ≠ some (.leaf v)

theorem Clear.of_accept {e : Usable α} (h : Clear scope (w.accept p e)) : Clear scope w := by
  intro q v hq hleaf
  unfold accept at h
  split at h
  · exact h q v hq hleaf
  · next p' _ =>
      cases hok : w.insert e.kind p' e.value with
      | error fault =>
          rw [hok] at h
          exact h q v hq hleaf
      | ok w' =>
          rw [hok] at h
          obtain ⟨v', hleaf'⟩ := (insert_reworked hok).leaf q v hleaf
          exact h q v' hq hleaf'

theorem Clear.of_foldl {es : List (Usable α)} (h : Clear scope (es.foldl (accept p) w)) :
    Clear scope w := by
  induction es generalizing w with
  | nil => exact h
  | cons e es ih => exact Clear.of_accept (ih h)

theorem stripBase?_root (p : AssetPath) : p.stripBase? .root = some p :=
  AssetPath.stripBase?_eq_some.mpr (by simp [AssetPath.append, AssetPath.root])

/-- Whatever file an index has, an entry put it there. -/
theorem leaf_of_foldl {es : List (Usable α)} {v : α}
    (hleaf : (es.foldl (accept .root) w).get? q = some (.leaf v)) :
    (∃ e ∈ es, e.kind = .file ∧ e.path = q) ∨ ∃ v', w.get? q = some (.leaf v') := by
  induction es generalizing w with
  | nil => exact Or.inr ⟨v, hleaf⟩
  | cons e es ih =>
      rcases ih hleaf with ⟨e', hmem, hfile⟩ | ⟨v', hv'⟩
      · exact Or.inl ⟨e', List.mem_cons_of_mem _ hmem, hfile⟩
      rw [accept, stripBase?_root] at hv'
      cases hok : w.insert e.kind e.path e.value with
      | error fault =>
          simp only [hok] at hv'
          exact Or.inr ⟨v', hv'⟩
      | ok w' =>
          simp only [hok] at hv'
          rcases leaf_of_insert hok hv' with ⟨hkind, hq⟩ | hold
          · exact Or.inl ⟨e, List.mem_cons_self, hkind, hq.symm⟩
          · exact Or.inr hold

/-- No entry has put a file at the scope or above it: what names a path there as a
file was refused, or there is nothing of the kind. -/
def Unshadowed (scope : AssetPath) (es : List (Usable α)) : Prop :=
  ∀ e ∈ es, e.kind = .file → OnWay e.path scope → (acceptAll .root es).kind? e.path ≠ some .file

instance (scope : AssetPath) (es : List (Usable α)) : Decidable (Unshadowed scope es) :=
  inferInstanceAs (Decidable (∀ e ∈ es, _ → _ → _))

theorem Unshadowed.clear {es : List (Usable α)} (h : Unshadowed scope es) :
    Clear scope (acceptAll .root es) := by
  intro q v hway hleaf
  rcases leaf_of_foldl hleaf with ⟨e, hmem, hfile, rfl⟩ | ⟨v', hv'⟩
  · refine h e hmem hfile hway ?_
    rw [NodeTree.kind?, hleaf]
    rfl
  · rw [get?_empty] at hv'
    split at hv' <;> cases hv'

/-- Where no file is in the way a directory can be made. -/
theorem ensureDirectoryAt_of_clear {names : List Name} (h : Clear ⟨names.reverse⟩ w) :
    ∃ w', w.ensureDirectoryAt names = .ok w' := by
  induction names with
  | nil =>
      cases hroot : w.get? .root with
      | none => exact ⟨_, by rw [ensureDirectoryAt, hroot]⟩
      | some node =>
          cases node with
          | leaf v => exact absurd hroot (h .root v (onWay_refl _))
          | directory children => exact ⟨_, by rw [ensureDirectoryAt, hroot]⟩
  | cons n above ih =>
      cases hthere : w.get? ⟨(n :: above).reverse⟩ with
      | some node =>
          cases node with
          | leaf v => exact absurd hthere (h _ v (onWay_refl _))
          | directory children =>
              refine ⟨w, ?_⟩
              rw [ensureDirectoryAt]
              simp only [hthere]
      | none =>
          have habove : Clear ⟨above.reverse⟩ w := by
            intro q v hq
            refine h q v (hq.trans ?_)
            simp
          obtain ⟨w₁, hw₁⟩ := ih habove
          exact ⟨_, by rw [ensureDirectoryAt_cons hthere, hw₁]; rfl⟩

/-! ## The two indexes -/

/-- An index that holds what another has below a path. -/
structure PartOf (scope : AssetPath) (t w : NodeTree α) : Prop where
  root : t.get? .root = some (.directory (w.children scope))
  below : ∀ q, q ≠ .root → t.get? q = w.get? (scope.append q)

theorem PartOf.children (h : PartOf scope t w) (q : AssetPath) :
    t.children q = w.children (scope.append q) := by
  by_cases hq : q = .root
  · rw [hq, AssetPath.append_root]
    exact children_of_directory h.root
  · rw [NodeTree.children, NodeTree.children, h.below q hq]

theorem PartOf.kind? (h : PartOf scope t w) (hq : q ≠ .root) :
    t.kind? q = w.kind? (scope.append q) := by
  rw [NodeTree.kind?, NodeTree.kind?, h.below q hq]

theorem partOf_empty (scope : AssetPath) : PartOf scope (empty : NodeTree α) empty := by
  have hnone : ∀ q : AssetPath, q ≠ .root → (empty : NodeTree α).get? q = none := by
    intro q hq
    rw [get?_empty, if_neg hq]
  refine ⟨?_, fun q hq => ?_⟩
  · show some _ = some _
    by_cases hscope : scope = .root
    · rw [hscope]
      rfl
    · rw [children_of_none (hnone scope hscope)]
  · rw [hnone q hq, hnone]
    intro happend
    refine hq ?_
    obtain ⟨ss⟩ := scope
    obtain ⟨qs⟩ := q
    have hnil : ss ++ qs = [] := congrArg AssetPath.names happend
    rw [(List.append_eq_nil_iff.mp hnil).2]
    rfl

/-- What happens outside the scope does not show. -/
theorem PartOf.outside (h : PartOf scope t w)
    (hsame : ∀ q, w'.get? (scope.append q) = w.get? (scope.append q)) : PartOf scope t w' := by
  have hscope := hsame .root
  rw [AssetPath.append_root] at hscope
  refine ⟨?_, fun q hq => (h.below q hq).trans (hsame q).symm⟩
  rw [h.root, NodeTree.children, NodeTree.children, hscope]

theorem PartOf.addChild (h : PartOf scope t w) (p : AssetPath) (n : Name) (node : Node α) :
    PartOf scope (t.addChild p n node) (w.addChild (scope.append p) n node) := by
  have hget : ∀ q, (w.addChild (scope.append p) n node).get? (scope.append q) =
      if q = p.child n then some node
      else if q = p then some (.directory (t.children p ++ [n]))
      else w.get? (scope.append q) := by
    intro q
    have hchild : scope.append q = (scope.append p).child n ↔ q = p.child n := by
      rw [← AssetPath.append_child]
      exact ⟨AssetPath.append_injective, congrArg _⟩
    have hself : scope.append q = scope.append p ↔ q = p :=
      ⟨AssetPath.append_injective, congrArg _⟩
    simp only [get?_addChild, hchild, hself, h.children]
  refine ⟨?_, fun q hq => ?_⟩
  · have hroot := hget .root
    rw [AssetPath.append_root, if_neg (p.child_ne_root n).symm] at hroot
    rw [get?_addChild, if_neg (p.child_ne_root n).symm]
    by_cases hp : AssetPath.root = p
    · rw [if_pos hp] at hroot ⊢
      rw [children_of_directory hroot]
    · rw [if_neg hp] at hroot ⊢
      rw [h.root, NodeTree.children, NodeTree.children, hroot]
  · rw [hget, get?_addChild, h.below q hq]

/-- Two insertions that are both refused, or lead to an index and its part again. -/
inductive PartEnd (scope : AssetPath) :
    Except InvalidPath (NodeTree α) → Except InvalidPath (NodeTree α) → Prop
  | error (e e' : InvalidPath) : PartEnd scope (.error e) (.error e')
  | ok {t w : NodeTree α} (h : PartOf scope t w) : PartEnd scope (.ok t) (.ok w)

theorem PartEnd.settle {result result' : Except InvalidPath (NodeTree α)}
    (hend : PartEnd scope result result') (h : PartOf scope t w) :
    PartOf scope (t.settle result) (w.settle result') := by
  cases hend with
  | error => exact h
  | ok h' => exact h'

theorem PartEnd.addChild {result result' : Except InvalidPath (NodeTree α)}
    (hend : PartEnd scope result result') (p : AssetPath) (n : Name) (node : Node α) :
    PartEnd scope (result.map fun t => t.addChild p n node)
      (result'.map fun w => w.addChild (scope.append p) n node) := by
  cases hend with
  | error e e' => exact .error e e'
  | ok h => exact .ok (h.addChild p n node)

theorem PartOf.ensureDirectoryAt (h : PartOf scope t w) (hclear : Clear scope w)
    (names : List Name) :
    PartEnd scope (t.ensureDirectoryAt names)
      (w.ensureDirectoryAt (names ++ scope.names.reverse)) := by
  induction names with
  | nil =>
      -- The one is at its root, the other at the scope, with the way up before it.
      have hway : (⟨scope.names.reverse.reverse⟩ : AssetPath) = scope := by simp
      rw [← hway] at hclear
      obtain ⟨w', hw'⟩ := ensureDirectoryAt_of_clear hclear
      obtain ⟨hreworked, hdir⟩ := ensureDirectoryAt_reworked hw'
      rw [hway] at hreworked hdir
      rw [List.nil_append, hw', NodeTree.ensureDirectoryAt, h.root]
      refine .ok ⟨?_, fun q hq => ?_⟩
      · rw [h.root, children_of_directory hdir]
      · rw [h.below q hq, hreworked.other]
        rintro ⟨rest, hrest⟩
        have hnames : scope.names ++ (q.names ++ rest) = scope.names := by
          rw [← List.append_assoc]
          exact hrest
        have hnil := List.append_right_eq_self.mp hnames
        refine hq ?_
        show (⟨q.names⟩ : AssetPath) = .root
        rw [(List.append_eq_nil_iff.mp hnil).1]
        rfl
  | cons n above ih =>
      have happend : scope.append ⟨(n :: above).reverse⟩ =
          ⟨(n :: above ++ scope.names.reverse).reverse⟩ := by
        simp [AssetPath.append]
      have hne : (⟨(n :: above).reverse⟩ : AssetPath) ≠ .root := by
        simp [AssetPath.root]
      have hsame := h.below _ hne
      rw [happend] at hsame
      cases hthere : t.get? ⟨(n :: above).reverse⟩ with
      | some node =>
          rw [hthere] at hsame
          rw [List.cons_append, NodeTree.ensureDirectoryAt, NodeTree.ensureDirectoryAt]
          simp only [← List.cons_append, hthere, ← hsame]
          cases node with
          | leaf v => exact .error _ _
          | directory children => exact .ok h
      | none =>
          rw [hthere] at hsame
          have hparent : scope.append ⟨above.reverse⟩ =
              ⟨(above ++ scope.names.reverse).reverse⟩ := by
            simp [AssetPath.append]
          rw [List.cons_append] at hsame ⊢
          rw [ensureDirectoryAt_cons hthere, ensureDirectoryAt_cons hsame.symm, ← hparent]
          exact ih.addChild _ n (.directory [])

theorem PartOf.ensureDirectory (h : PartOf scope t w) (hclear : Clear scope w) (q : AssetPath) :
    PartEnd scope (t.ensureDirectory q) (w.ensureDirectory (scope.append q)) := by
  have hnames : (scope.append q).names.reverse = q.names.reverse ++ scope.names.reverse := by
    simp [AssetPath.append]
  rw [NodeTree.ensureDirectory, NodeTree.ensureDirectory, hnames]
  exact h.ensureDirectoryAt hclear q.names.reverse

theorem PartOf.insertLeaf (h : PartOf scope t w) (hclear : Clear scope w) (hq : q ≠ .root)
    (value : α) : PartEnd scope (t.insertLeaf q value) (w.insertLeaf (scope.append q) value) := by
  have hsame := h.below q hq
  cases hthere : t.get? q with
  | some node =>
      rw [hthere] at hsame
      rw [NodeTree.insertLeaf, NodeTree.insertLeaf, hthere, ← hsame]
      cases node with
      | directory children => exact .error _ _
      | leaf old =>
          refine .ok ⟨?_, fun x hx => ?_⟩
          · -- The scope is no leaf, so it lists what it listed.
            have hscope : scope ≠ scope.append q := by
              intro heq
              have hroot : scope.append q = scope.append .root := by
                rw [AssetPath.append_root]
                exact heq.symm
              exact hq (AssetPath.append_injective hroot)
            rw [get?_mk_put, if_neg (Ne.symm hq), NodeTree.children, get?_mk_put, if_neg hscope]
            exact h.root
          · have hiff : scope.append x = scope.append q ↔ x = q :=
              ⟨AssetPath.append_injective, congrArg _⟩
            simp only [get?_mk_put, hiff]
            split
            · rfl
            · exact h.below x hx
  | none =>
      rw [hthere] at hsame
      obtain ⟨above, n, rfl⟩ := eq_child_of_ne_root hq
      rw [AssetPath.append_child] at hsame ⊢
      rw [insertLeaf_of_none hthere, insertLeaf_of_none hsame.symm]
      exact (h.ensureDirectory hclear above).addChild above n (.leaf value)

/-- A file at the scope is refused below it, and elsewhere it would be in the way. -/
theorem PartOf.insertLeaf_root (h : PartOf scope t w) (value : α)
    (hclear : Clear scope (w.settle (w.insertLeaf scope value))) :
    PartEnd scope (t.insertLeaf .root value) (w.insertLeaf scope value) := by
  rw [NodeTree.insertLeaf, h.root]
  cases hok : w.insertLeaf scope value with
  | error e => exact .error _ e
  | ok w' =>
      rw [hok] at hclear
      suffices hleaf : w'.get? scope = some (.leaf value) from
        absurd hleaf (hclear scope value (onWay_refl _))
      rw [NodeTree.insertLeaf] at hok
      split at hok
      · cases hok
      · obtain rfl := Except.ok.inj hok
        rw [get?_mk_put, if_pos rfl]
      split at hok
      · cases hok
      split at hok
      · cases hok
      · obtain rfl := Except.ok.inj hok
        rw [get?_mk_put, if_pos rfl]

/-- An entry keeps a part a part, as long as it puts no file at the scope or above. -/
theorem PartOf.accept (h : PartOf scope t w) (e : Usable α)
    (hclear : Clear scope (w.accept .root e)) :
    PartOf scope (t.accept scope e) (w.accept .root e) := by
  have hbefore := hclear.of_accept
  have hwhole : w.accept .root e = w.settle (w.insert e.kind e.path e.value) := by
    rw [NodeTree.accept, stripBase?_root]
  rw [hwhole] at hclear ⊢
  cases hstrip : e.path.stripBase? scope with
  | none =>
      rw [NodeTree.accept, hstrip]
      cases hok : w.insert e.kind e.path e.value with
      | error fault => exact h
      | ok w' =>
          refine h.outside fun q => (insert_reworked hok).other _ ?_
          -- What is on the way to the entry's path lies not below the scope.
          rintro ⟨rest, hrest⟩
          have hpath : e.path = scope.append ⟨q.names ++ rest⟩ := by
            obtain ⟨path, kind, value⟩ := e
            obtain ⟨ps⟩ := path
            simp only [AssetPath.append] at hrest ⊢
            rw [← hrest, List.append_assoc]
          rw [AssetPath.stripBase?_eq_some.mpr hpath] at hstrip
          cases hstrip
  | some q =>
      obtain hpath := AssetPath.stripBase?_eq_some.mp hstrip
      rw [NodeTree.accept, hstrip]
      refine PartEnd.settle ?_ h
      rw [hpath] at hclear ⊢
      unfold NodeTree.insert at hclear ⊢
      cases hkind : e.kind with
      | directory => exact h.ensureDirectory hbefore q
      | file =>
          rw [hkind] at hclear
          by_cases hq : q = .root
          · rw [hq, AssetPath.append_root] at hclear ⊢
            exact h.insertLeaf_root e.value hclear
          · exact h.insertLeaf hbefore hq e.value

/-- Entries that are indexed below a scope come to the part that they have of the
whole, if no file of the whole stands at the scope or above it. -/
theorem Unshadowed.partOf {es : List (Usable α)} (hfree : Unshadowed scope es) :
    PartOf scope (acceptAll scope es) (acceptAll .root es) := by
  suffices h : ∀ (t w : NodeTree α), PartOf scope t w → Clear scope (es.foldl (accept .root) w) →
      PartOf scope (es.foldl (accept scope) t) (es.foldl (accept .root) w) from
    h _ _ (partOf_empty scope) hfree.clear
  clear hfree
  induction es with
  | nil => exact fun t w h _ => h
  | cons e es ih =>
      intro t w h hclear
      exact ih _ _ (h.accept e (Clear.of_foldl hclear)) hclear

/-- Entries outside the scope may as well not be there. -/
theorem acceptAll_filter (scope : AssetPath) (es : List (Usable α)) :
    acceptAll scope (es.filter fun e => e.path.startsWith scope) = acceptAll scope es := by
  unfold acceptAll
  rw [List.foldl_filter]
  congr 1
  funext t e
  split
  · rfl
  · next hout =>
      rw [accept, AssetPath.stripBase?, if_neg hout]

end NodeTree

end AssetUnpack
