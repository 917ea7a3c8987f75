import AssetUnpack.Proofs.NodeTree

/-!
# Two indexes side by side

A package index keeps where contents are, an index in memory the contents
themselves. `Alike` relates two such indexes: at every path there are nodes of one
kind, directories list the same names in the same order, and leaves are related.

An insertion looks at what its path and those above it are and at nothing else, so
insertions into alike indexes either fail for one reason or lead to alike indexes
again (`SameEnd`).
-/

namespace AssetUnpack.NodeTree

variable {α β : Type} {R : α → β → Prop}

/-- The same thing at a path, up to leaves that are related. -/
inductive Matching (R : α → β → Prop) : Option (Node α) → Option (Node β) → Prop
  | nothing : Matching R none none
  | leaf {a : α} {b : β} (h : R a b) : Matching R (some (.leaf a)) (some (.leaf b))
  | directory (names : List Name) :
      Matching R (some (.directory names)) (some (.directory names))

/-- Two indexes with the same thing at every path. -/
def Alike (R : α → β → Prop) (t : NodeTree α) (t' : NodeTree β) : Prop :=
  ∀ p, Matching R (t.get? p) (t'.get? p)

/-- Two insertions that end alike. -/
inductive SameEnd (R : α → β → Prop) :
    Except InvalidPath (NodeTree α) → Except InvalidPath (NodeTree β) → Prop
  | error (e : InvalidPath) : SameEnd R (.error e) (.error e)
  | ok {t : NodeTree α} {t' : NodeTree β} (h : Alike R t t') : SameEnd R (.ok t) (.ok t')

variable {t : NodeTree α} {t' : NodeTree β}

theorem Alike.put (h : Alike R t t') (p : AssetPath) {node : Node α} {node' : Node β}
    (hnode : Matching R (some node) (some node')) :
    Alike R ⟨t.nodes.put p node⟩ ⟨t'.nodes.put p node'⟩ := by
  intro q
  rw [get?_mk_put, get?_mk_put]
  split
  · exact hnode
  · exact h q

theorem alike_empty : Alike R (empty : NodeTree α) (empty : NodeTree β) := by
  have hnone : Alike R (⟨.empty⟩ : NodeTree α) (⟨.empty⟩ : NodeTree β) := fun _ => .nothing
  exact hnone.put .root (.directory [])

/-! ## What alike indexes answer -/

theorem Alike.children (h : Alike R t t') (p : AssetPath) : t.children p = t'.children p := by
  have hp := h p
  unfold NodeTree.children
  generalize t.get? p = node at hp ⊢
  generalize t'.get? p = node' at hp ⊢
  cases hp <;> rfl

theorem Alike.kind? (h : Alike R t t') (p : AssetPath) : t.kind? p = t'.kind? p := by
  have hp := h p
  unfold NodeTree.kind?
  generalize t.get? p = node at hp ⊢
  generalize t'.get? p = node' at hp ⊢
  cases hp <;> rfl

/-- Where one index has a leaf the other has a related one, and elsewhere the errors
are the same. -/
theorem Alike.leafAt (h : Alike R t t') (p : AssetPath) :
    (∃ a b, t.leafAt p = .ok a ∧ t'.leafAt p = .ok b ∧ R a b) ∨
      ∃ e, t.leafAt p = .error e ∧ t'.leafAt p = .error e := by
  have hp := h p
  unfold NodeTree.leafAt
  generalize t.get? p = node at hp ⊢
  generalize t'.get? p = node' at hp ⊢
  cases hp with
  | leaf hr => exact Or.inl ⟨_, _, rfl, rfl, hr⟩
  | nothing | directory => exact Or.inr ⟨_, rfl, rfl⟩

/-! ## Insertions -/

theorem SameEnd.settle {result : Except InvalidPath (NodeTree α)}
    {result' : Except InvalidPath (NodeTree β)} (hend : SameEnd R result result')
    (h : Alike R t t') : Alike R (t.settle result) (t'.settle result') := by
  cases hend with
  | error => exact h
  | ok h₁ => exact h₁

theorem Alike.ensureDirectoryAt (h : Alike R t t') (names : List Name) :
    SameEnd R (t.ensureDirectoryAt names) (t'.ensureDirectoryAt names) := by
  induction names with
  | nil =>
      have hroot := h .root
      unfold NodeTree.ensureDirectoryAt
      generalize t.get? .root = node at hroot ⊢
      generalize t'.get? .root = node' at hroot ⊢
      cases hroot with
      | nothing => exact .ok (h.put .root (.directory []))
      | leaf => exact .error _
      | directory => exact .ok h
  | cons name above ih =>
      have hpath := h ⟨(name :: above).reverse⟩
      rw [NodeTree.ensureDirectoryAt, NodeTree.ensureDirectoryAt]
      dsimp only
      generalize t.get? ⟨(name :: above).reverse⟩ = node at hpath ⊢
      generalize t'.get? ⟨(name :: above).reverse⟩ = node' at hpath ⊢
      cases hpath with
      | leaf => exact .error _
      | directory => exact .ok h
      | nothing =>
          generalize t.ensureDirectoryAt above = result at ih ⊢
          generalize t'.ensureDirectoryAt above = result' at ih ⊢
          cases ih with
          | error e => exact .error e
          | ok h₁ =>
              dsimp only
              rw [h₁.children]
              exact .ok ((h₁.put _ (.directory _)).put _ (.directory []))

theorem Alike.ensureDirectory (h : Alike R t t') (p : AssetPath) :
    SameEnd R (t.ensureDirectory p) (t'.ensureDirectory p) :=
  h.ensureDirectoryAt p.names.reverse

theorem Alike.insertLeaf (h : Alike R t t') (p : AssetPath) {a : α} {b : β} (hr : R a b) :
    SameEnd R (t.insertLeaf p a) (t'.insertLeaf p b) := by
  have hpath := h p
  unfold NodeTree.insertLeaf
  generalize t.get? p = node at hpath ⊢
  generalize t'.get? p = node' at hpath ⊢
  cases hpath with
  | leaf => exact .ok (h.put p (.leaf hr))
  | directory => exact .error _
  | nothing =>
      cases p.names.reverse with
      | nil => exact .error _
      | cons name above =>
          have habove := h.ensureDirectoryAt above
          dsimp only
          generalize t.ensureDirectoryAt above = result at habove ⊢
          generalize t'.ensureDirectoryAt above = result' at habove ⊢
          cases habove with
          | error e => exact .error e
          | ok h₁ =>
              dsimp only
              rw [h₁.children]
              exact .ok ((h₁.put _ (.directory _)).put _ (.leaf hr))

end AssetUnpack.NodeTree
