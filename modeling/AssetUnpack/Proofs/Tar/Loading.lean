import Mathlib.Data.List.Forall2
import AssetUnpack.Proofs.Source.Entries
import AssetUnpack.Tar.Bundle

/-!
# What loading a bundle comes to

Loading a bundle adds its members to a tree in memory, and the tree is one that
insertions lead to, however the bundle was made (`load_built`). If its members are
entries with ordinary names, the tree is the one that the entries come to
(`load_of_entries`): members that loading passes over or notes leave the tree alone,
which is what becomes of an entry that cannot be inserted.
-/

namespace AssetUnpack.Tar

/-- A member that is an entry. -/
structure Carries (m : Member) (e : Entry) : Prop where
  name : Bytes.text? m.name = some e.name
  kind : flagKind? m.flag = some e.kind
  content : e.kind = .file → m.content = e.content ∧ m.failure? = none

theorem stripCurrent_of_wellNamed {e : Entry} (h : e.WellNamed) :
    stripCurrent e.name.toList = e.name.toList := by
  have hnot : e.name.toList ≠ ['.'] := fun heq =>
    h.notCurrent (String.toList_inj.mp (heq.trans (by decide)))
  rw [stripCurrent.eq_def]
  split
  · next rest heq => exact absurd ⟨rest, heq.symm⟩ h.noCurrent
  · next heq => exact absurd heq hnot
  · rfl

section Loading

variable {scope : AssetPath} {l l' : Loading} {m : Member} {e : Entry}

theorem tree_note (l : Loading) (event : Event) : (l.note event).tree = l.tree := rfl

theorem tree_added (l : Loading) (name : String) (result : Except InvalidPath MemoryTree) :
    (l.added name result).tree = l.tree.settle result := by
  cases result <;> rfl

/-- A member that is an entry is added to the tree like the entry. -/
theorem loadMember_of_entry (scope : AssetPath) (l : Loading) (h : Carries m e)
    (hnamed : e.WellNamed) :
    ∃ l', loadMember scope l m = .ok l' ∧ l'.tree = l.tree.addEntry scope e := by
  unfold loadMember MemoryTree.addEntry
  rw [h.name, h.kind]
  dsimp only
  rw [stripCurrent_of_wellNamed hnamed, String.ofList_toList]
  cases hparse : AssetPath.parse e.name with
  | error fault => exact ⟨_, rfl, tree_note _ _⟩
  | ok full =>
      dsimp only
      cases full.stripBase? scope with
      | none => exact ⟨l, rfl, rfl⟩
      | some path =>
          dsimp only
          by_cases hroot : path.isRoot = true
          · rw [if_pos hroot, if_pos hroot]
            exact ⟨l, rfl, rfl⟩
          rw [if_neg hroot, if_neg hroot]
          unfold MemoryTree.insertEntry
          cases hkind : e.kind with
          | directory => exact ⟨_, rfl, tree_added _ _ _⟩
          | file =>
              obtain ⟨hcontent, hwhole⟩ := h.content hkind
              rw [hwhole, hcontent]
              exact ⟨_, rfl, tree_added _ _ _⟩

theorem loadItems_of_entries (scope : AssetPath) (l : Loading) {ms : List Member}
    {entries : List Entry} (h : List.Forall₂ Carries ms entries)
    (hnamed : ∀ e ∈ entries, e.WellNamed) :
    ∃ l', (loadItems scope l (ms.map .member)).1 = .ok l' ∧
      l'.tree = entries.foldl (MemoryTree.addEntry scope) l.tree := by
  induction h generalizing l with
  | nil => exact ⟨l, rfl, rfl⟩
  | @cons m e ms entries hm hrest ih =>
      obtain ⟨l₁, hload, htree⟩ := loadMember_of_entry scope l hm (hnamed e List.mem_cons_self)
      rw [List.map_cons, loadItems, hload, List.foldl_cons, ← htree]
      exact ih l₁ fun e' he' => hnamed e' (List.mem_cons_of_mem _ he')

/-- A bundle of ordinary entries loads, and gives the tree that they come to. -/
theorem load_of_entries (scope : AssetPath) {input : Reader} {ms : List Member}
    (hmembers : members {} (.start input) = ms.map .member) {entries : List Entry}
    (h : List.Forall₂ Carries ms entries) (hnamed : ∀ e ∈ entries, e.WellNamed) :
    (load input scope).1 = .ok (MemoryTree.treeOf scope entries) := by
  obtain ⟨l, hload, htree⟩ := loadItems_of_entries scope ⟨.empty, [], 0⟩ h hnamed
  unfold load
  rw [hmembers]
  generalize loadItems scope ⟨.empty, [], 0⟩ (ms.map .member) = loaded at hload ⊢
  obtain ⟨result, events⟩ := loaded
  obtain rfl : result = .ok l := hload
  exact congrArg Except.ok htree

theorem openTar_of_load {text : String} (hscope : AssetPath.parse text = .ok scope)
    {bytes : Bytes} {gzipped : Bool} {tree : MemoryTree}
    (h : (load (inputOf bytes gzipped) scope).1 = .ok tree) :
    (Source.openTar bytes gzipped text).1 = .ok (.ofMemory tree true) := by
  unfold Source.openTar
  rw [hscope]
  dsimp only
  generalize load (inputOf bytes gzipped) scope = loaded at h ⊢
  obtain ⟨result, events⟩ := loaded
  obtain rfl : result = .ok tree := h
  rfl

/-! ## Every bundle -/

theorem loadMember_built (h : l.tree.Built) (hok : loadMember scope l m = .ok l') :
    l'.tree.Built := by
  have hadded (name : String) (result : Except InvalidPath MemoryTree)
      (hresult : ∀ t, result = .ok t → t.Built) : (l.added name result).tree.Built := by
    rw [tree_added]
    cases result with
    | error fault => exact h
    | ok t => exact hresult t rfl
  unfold loadMember at hok
  split at hok
  · obtain rfl := Except.ok.inj hok
    exact h
  split at hok
  · obtain rfl := Except.ok.inj hok
    exact h
  split at hok
  · obtain rfl := Except.ok.inj hok
    exact h
  split at hok
  · obtain rfl := Except.ok.inj hok
    exact h
  split at hok
  · obtain rfl := Except.ok.inj hok
    exact h
  split at hok
  · obtain rfl := Except.ok.inj hok
    exact hadded _ _ fun t ht => .directory h _ ht
  · obtain rfl := Except.ok.inj hok
    exact hadded _ _ fun t ht => .file h _ _ ht
  · cases hok

theorem loadItems_built (h : l.tree.Built) {items : List Item}
    (hok : (loadItems scope l items).1 = .ok l') : l'.tree.Built := by
  induction items generalizing l with
  | nil =>
      obtain rfl := Except.ok.inj hok
      exact h
  | cons item items ih =>
      cases item with
      | broken detail => cases hok
      | member m =>
          rw [loadItems] at hok
          cases hload : loadMember scope l m with
          | error fault =>
              rw [hload] at hok
              cases hok
          | ok l₁ =>
              rw [hload] at hok
              exact ih (loadMember_built h hload) hok

/-- Whatever is read of a bundle, its tree is one that insertions lead to. -/
theorem load_built {input : Reader} {tree : MemoryTree} (hok : (load input scope).1 = .ok tree) :
    tree.Built := by
  unfold load at hok
  have hitems := @loadItems_built scope ⟨.empty, [], 0⟩
  generalize loadItems scope ⟨.empty, [], 0⟩ = loaded at hitems hok
  split at hok
  · cases hok
  · next l events hload =>
      obtain rfl := Except.ok.inj hok
      exact hitems .empty (congrArg Prod.fst hload)

end Loading

end AssetUnpack.Tar
