import Mathlib.Data.List.Induction
import AssetUnpack.Proofs.NodeTree.Additions

/-!
# The order of insertions shows in the listings alone

Some files and directories go together if none of the files has the place of another
of them or stands above it. What such a collection comes to can be said without an
order (`MadeOf`): there is a node wherever a member is or leads through, the leaves
are the files among the members, and the rest are directories. One more member that
goes with the others finds no leaf on its way and nothing but its own name to add, so
this is kept from call to call, and no call is refused on the way.

Two orders then lead to the same nodes. A directory lists the names that it has once
each, so the listings are the same but for their order (`orders_agree`).
-/

namespace AssetUnpack

namespace Addition

variable {α : Type}

def isLeaf : Addition α → Bool
  | leaf .. => true
  | directory _ => false

/-- Neither of two calls puts a leaf where the other has to go. -/
def FitsWith (a b : Addition α) : Prop :=
  (a.isLeaf = true → ¬ NodeTree.OnWay a.path b.path) ∧
    (b.isLeaf = true → ¬ NodeTree.OnWay b.path a.path)

instance (a b : Addition α) : Decidable (a.FitsWith b) := inferInstanceAs (Decidable (_ ∧ _))

theorem FitsWith.symm {a b : Addition α} (h : a.FitsWith b) : b.FitsWith a := ⟨h.2, h.1⟩

end Addition

namespace NodeTree

variable {α : Type} {t t' : NodeTree α} {as bs : List (Addition α)} {a : Addition α}

/-- Calls that go together. -/
structure Fitting (as : List (Addition α)) : Prop where
  notRoot : ∀ a ∈ as, a.isLeaf = true → a.path ≠ .root
  fits : as.Pairwise Addition.FitsWith

theorem Fitting.perm (h : Fitting as) (hperm : bs.Perm as) : Fitting bs :=
  ⟨fun a ha => h.notRoot a (hperm.mem_iff.mp ha),
    (hperm.pairwise_iff fun hab => hab.symm).mpr h.fits⟩

theorem Fitting.before (h : Fitting (as ++ bs)) : Fitting as :=
  ⟨fun a ha => h.notRoot a (List.mem_append_left bs ha), (List.pairwise_append.mp h.fits).1⟩

theorem Fitting.fitsWith (h : Fitting (as ++ [a])) {b : Addition α} (hb : b ∈ as) :
    b.FitsWith a :=
  (List.pairwise_append.mp h.fits).2.2 b hb a (List.mem_singleton_self a)

instance (as : List (Addition α)) : Decidable (Fitting as) :=
  decidable_of_iff ((∀ a ∈ as, a.isLeaf = true → a.path ≠ .root) ∧ as.Pairwise Addition.FitsWith)
    ⟨fun h => ⟨h.1, h.2⟩, fun h => ⟨h.notRoot, h.fits⟩⟩

/-- An index that holds what calls ask for and nothing else. -/
structure MadeOf (as : List (Addition α)) (t : NodeTree α) : Prop where
  node : ∀ q, t.get? q ≠ none ↔ q = .root ∨ ∃ a ∈ as, OnWay q a.path
  leaf : ∀ q v, t.get? q = some (.leaf v) ↔ .leaf q v ∈ as

theorem madeOf_empty : MadeOf ([] : List (Addition α)) empty := by
  refine ⟨fun q => ?_, fun q v => ?_⟩
  · rw [get?_empty]
    by_cases hq : q = .root
    · simp [hq]
    · simp [hq]
  · rw [get?_empty]
    split
    · simp
    · simp

theorem MadeOf.no_leaf_on_way (h : MadeOf as t) (hfit : Fitting (as ++ [a])) {q : AssetPath}
    (hq : OnWay q a.path) : t.kind? q ≠ some .file := by
  intro hfile
  obtain ⟨v, hv⟩ := kind?_eq_file.mp hfile
  exact (hfit.fitsWith ((h.leaf q v).mp hv)).1 rfl hq

theorem MadeOf.allowed (h : MadeOf as t) (hfit : Fitting (as ++ [a])) : a.Allowed t := by
  cases a with
  | directory p => exact fun q hq => h.no_leaf_on_way hfit hq
  | leaf p value =>
      have hroot : p ≠ .root := hfit.notRoot (.leaf p value) (by simp) rfl
      refine ⟨hroot, fun hdir => ?_, fun q hq => h.no_leaf_on_way hfit hq.1⟩
      have hthere : t.get? p ≠ none := kind?_ne_none.mp (by rw [hdir]; exact Option.some_ne_none _)
      rcases (h.node p).mp hthere with hp | ⟨b, hb, hway⟩
      · exact hroot hp
      · exact (hfit.fitsWith hb).2 rfl hway

theorem Grown.get?_of_not_onWay {p q : AssetPath} {node : Node α} (h : Grown p node t t')
    (hq : ¬ OnWay q p) : t'.get? q = t.get? q := by
  refine h.other q (fun heq => ?_) fun n hn => absurd (AssetPath.under_of_child hn) hq
  rw [heq] at hq
  exact hq (onWay_refl p)

theorem Grown.ne_none_of_onWay {p q : AssetPath} {node : Node α} (h : Grown p node t t')
    (hq : OnWay q p) : t'.get? q ≠ none := by
  by_cases heq : q = p
  · rw [heq, h.there]
    exact Option.some_ne_none _
  · obtain ⟨names, hnames⟩ := h.above q ⟨hq, heq⟩
    rw [hnames]
    exact Option.some_ne_none _

/-- What was made of some calls, and one more that goes with them. -/
theorem MadeOf.grown (h : MadeOf as t) (hfit : Fitting (as ++ [a]))
    (hgrown : Grown a.path (a.node t) t t') : MadeOf (as ++ [a]) t' := by
  have hnew : ∀ q v, OnWay q a.path → Addition.leaf q v ∉ as := by
    intro q v hq hmem
    exact (hfit.fitsWith hmem).1 rfl hq
  refine ⟨fun q => ?_, fun q v => ?_⟩
  · by_cases hq : OnWay q a.path
    · exact ⟨fun _ => Or.inr ⟨a, by simp, hq⟩, fun _ => hgrown.ne_none_of_onWay hq⟩
    · rw [hgrown.get?_of_not_onWay hq, h.node]
      simp [or_and_right, exists_or, hq]
  · rw [List.mem_append, List.mem_singleton]
    by_cases hq : OnWay q a.path
    · rw [or_iff_right (hnew q v hq)]
      by_cases heq : q = a.path
      · rw [heq, hgrown.there]
        cases a with
        | directory p => simp [Addition.node]
        | leaf p value => simp [Addition.node, Addition.path, eq_comm]
      · obtain ⟨names, hnames⟩ := hgrown.above q ⟨hq, heq⟩
        rw [hnames]
        refine ⟨nofun, fun ha => absurd ?_ heq⟩
        rw [← ha, Addition.path]
    · rw [hgrown.get?_of_not_onWay hq, h.leaf]
      refine (or_iff_left fun ha => hq ?_).symm
      rw [← ha]
      exact onWay_refl q

/-! ## Two indexes made of the same -/

theorem MadeOf.congr (h : MadeOf as t) (hmem : ∀ a, a ∈ as ↔ a ∈ bs) : MadeOf bs t := by
  refine ⟨fun q => ?_, fun q v => ?_⟩
  · rw [h.node]
    simp only [hmem]
  · rw [h.leaf, hmem]

section Same

variable (h : MadeOf as t) (h' : MadeOf as t')

include h h'

theorem MadeOf.get?_eq_none_iff (q : AssetPath) : t.get? q = none ↔ t'.get? q = none := by
  rw [← not_iff_not, ← Ne, ← Ne, h.node, h'.node]

theorem MadeOf.matching (q : AssetPath) : t.get? q = none ∧ t'.get? q = none ∨
    (∃ v, t.get? q = some (.leaf v) ∧ t'.get? q = some (.leaf v)) ∨
    ∃ names names', t.get? q = some (.directory names) ∧ t'.get? q = some (.directory names') := by
  have hnone := h.get?_eq_none_iff h' q
  have hleaf : ∀ v, t.get? q = some (.leaf v) ↔ t'.get? q = some (.leaf v) :=
    fun v => (h.leaf q v).trans (h'.leaf q v).symm
  cases hq : t.get? q with
  | none => exact Or.inl ⟨rfl, hnone.mp hq⟩
  | some node =>
      cases node with
      | leaf v => exact Or.inr (Or.inl ⟨v, rfl, (hleaf v).mp hq⟩)
      | directory names =>
          cases hq' : t'.get? q with
          | none => exact absurd (hnone.mpr hq') (by rw [hq]; exact Option.some_ne_none _)
          | some node' =>
              cases node' with
              | leaf v => exact absurd ((hleaf v).mpr hq') (by rw [hq]; simp)
              | directory names' => exact Or.inr (Or.inr ⟨names, names', rfl, rfl⟩)

theorem MadeOf.kind?_eq (q : AssetPath) : t.kind? q = t'.kind? q := by
  unfold kind?
  rcases h.matching h' q with ⟨hq, hq'⟩ | ⟨v, hq, hq'⟩ | ⟨names, names', hq, hq'⟩
  · rw [hq, hq']
  · rw [hq, hq']
  · rw [hq, hq']
    rfl

theorem MadeOf.leafAt_eq (q : AssetPath) : t.leafAt q = t'.leafAt q := by
  unfold leafAt
  rcases h.matching h' q with ⟨hq, hq'⟩ | ⟨v, hq, hq'⟩ | ⟨names, names', hq, hq'⟩
  all_goals rw [hq, hq']

theorem MadeOf.children_perm (ht : t.Consistent) (ht' : t'.Consistent) (q : AssetPath) :
    (t.children q).Perm (t'.children q) := by
  rw [List.perm_ext_iff_of_nodup (ht.nodup q) (ht'.nodup q)]
  intro n
  rw [ht.listed, ht'.listed, Ne, Ne, h.get?_eq_none_iff h']

end Same

end NodeTree

/-! ## Calls with texts -/

namespace Insertion

/-- What a call adds, once its text is read. -/
def addition : Insertion → Except InvalidPath (Addition Bytes)
  | file path content => (AssetPath.parse path).map fun p => .leaf p content
  | directory path => (AssetPath.parse path).map .directory

/-- What calls add whose texts can be read. -/
def additions (calls : List Insertion) : List (Addition Bytes) :=
  calls.filterMap fun c => c.addition.toOption

/-- Calls that spell paths and go together. -/
structure Compatible (calls : List Insertion) : Prop where
  spelled : ∀ c ∈ calls, ∃ a, c.addition = .ok a
  fitting : NodeTree.Fitting (additions calls)

variable {calls order : List Insertion} {c : Insertion} {a : Addition Bytes}

theorem Compatible.perm (h : Compatible calls) (hperm : order.Perm calls) : Compatible order :=
  ⟨fun c hc => h.spelled c (hperm.mem_iff.mp hc), h.fitting.perm (hperm.filterMap _)⟩

theorem Compatible.before {rest : List Insertion} (h : Compatible (calls ++ rest)) :
    Compatible calls := by
  refine ⟨fun c hc => h.spelled c (List.mem_append_left rest hc), ?_⟩
  have hfit := h.fitting
  rw [additions, List.filterMap_append] at hfit
  exact hfit.before

theorem compatible_of_additions (as : List (Addition Bytes))
    (hspelled : calls.map addition = as.map .ok) (hfit : NodeTree.Fitting as) :
    Compatible calls := by
  have hadditions : additions calls = as := by
    have hmap : additions calls = (calls.map addition).filterMap (·.toOption) := by
      rw [List.filterMap_map]
      rfl
    rw [hmap, hspelled, List.filterMap_map]
    exact List.filterMap_some
  refine ⟨fun c hc => ?_, by rw [hadditions]; exact hfit⟩
  have hmem : c.addition ∈ calls.map addition := List.mem_map_of_mem hc
  rw [hspelled] at hmem
  obtain ⟨a, -, ha⟩ := List.mem_map.mp hmem
  exact ⟨a, ha.symm⟩

theorem additions_snoc (calls : List Insertion) (h : c.addition = .ok a) :
    additions (calls ++ [c]) = additions calls ++ [a] := by
  rw [additions, List.filterMap_append, List.filterMap_cons_some (by rw [h]; rfl),
    List.filterMap_nil]
  rfl

theorem parse_of_map {β : Type} {path : String} {f : AssetPath → β} {b : β}
    (h : (AssetPath.parse path).map f = .ok b) : ∃ p, AssetPath.parse path = .ok p ∧ f p = b := by
  cases hp : AssetPath.parse path with
  | error e =>
      rw [hp] at h
      cases h
  | ok p =>
      rw [hp] at h
      exact ⟨p, rfl, Except.ok.inj h⟩

theorem inPlace_of_addition (h : c.addition = .ok a) : c.inPlace = a.inPlace := by
  cases c with
  | file path content =>
      obtain ⟨p, hp, rfl⟩ := parse_of_map h
      rw [inPlace, hp]
      rfl
  | directory path =>
      obtain ⟨p, hp, rfl⟩ := parse_of_map h
      rw [inPlace, hp]
      rfl

/-- The next of calls that go together is not refused. -/
theorem Compatible.next (h : Compatible (calls ++ [c]))
    (hmade : NodeTree.MadeOf (additions calls) (MemoryTree.after calls)) :
    ∃ t', c.inPlace (MemoryTree.after calls) = .ok () t' ∧
      NodeTree.MadeOf (additions (calls ++ [c])) t' := by
  obtain ⟨a, ha⟩ := h.spelled c (by simp)
  have hfit := h.fitting
  rw [additions_snoc calls ha] at hfit ⊢
  have hc := (MemoryTree.after_built calls).consistent
  obtain ⟨t', hok⟩ := (a.insertInto_ok_iff hc).mpr (hmade.allowed hfit)
  refine ⟨t', ?_, hmade.grown hfit (Addition.insertInto_grown hc hok)⟩
  rw [inPlace_of_addition ha]
  exact Addition.inPlace_eq_ok.mpr hok

theorem Compatible.madeOf (h : Compatible calls) :
    NodeTree.MadeOf (additions calls) (MemoryTree.after calls) := by
  induction calls using List.reverseRecOn with
  | nil => exact NodeTree.madeOf_empty
  | append_singleton calls c ih =>
      obtain ⟨t', hok, hmade⟩ := h.next (ih h.before)
      have hafter : MemoryTree.after (calls ++ [c]) = t' := by
        rw [MemoryTree.after, List.foldl_append]
        show (MemoryTree.after calls).call c = t'
        rw [MemoryTree.call, hok]
      rw [hafter]
      exact hmade

end Insertion

/-- Two sources with the same nodes and the same behind them, listed in orders of
their own. -/
structure Source.SameButOrder (s s' : Source) : Prop where
  kind : ∀ disk p, s.kind disk p = s'.kind disk p
  openAsset : ∀ disk busy p, s.openAsset disk busy p = s'.openAsset disk busy p
  list : ∀ disk p, ∃ names names', (s.list disk p).1 = .ok names ∧
    (s'.list disk p).1 = .ok names' ∧ names.Perm names'

/-- Calls that go together all succeed, in whatever order they are made, and any two
orders lead to sources that differ in the order of their listings at most. -/
theorem Insertion.orders_agree {calls : List Insertion} (h : Compatible calls) :
    (∀ before c rest, (before ++ c :: rest).Perm calls →
      ∃ t', c.inPlace (MemoryTree.after before) = .ok () t') ∧
    ∀ order order', order.Perm calls → order'.Perm calls → ∀ classified,
      (Source.ofMemory (MemoryTree.after order) classified).SameButOrder
        (.ofMemory (MemoryTree.after order') classified) := by
  constructor
  · intro before c rest hperm
    have hall := h.perm hperm
    rw [List.append_cons] at hall
    have hnext := hall.before
    obtain ⟨t', hok, -⟩ := hnext.next hnext.before.madeOf
    exact ⟨t', hok⟩
  · intro order order' hperm hperm' classified
    have hmade := (h.perm hperm).madeOf
    have hmade' : NodeTree.MadeOf (additions order) (MemoryTree.after order') :=
      (h.perm hperm').madeOf.congr fun a => ((hperm'.trans hperm.symm).filterMap _).mem_iff
    have hc := (MemoryTree.after_built order).consistent
    have hc' := (MemoryTree.after_built order').consistent
    refine ⟨fun disk p => ?_, fun disk busy p => ?_, fun disk p => ?_⟩
    · show (if classified then _ else _) = if classified then _ else _
      rw [hmade.kind?_eq hmade']
    · show ((MemoryTree.after order).leafAt p).map _ = ((MemoryTree.after order').leafAt p).map _
      rw [hmade.leafAt_eq hmade']
    · exact ⟨_, _, rfl, rfl, (hmade.children_perm hmade' hc hc' p).map _⟩

/-- A file in a directory that is asked for by itself later on, another in one that is
asked for only so, and the root once more. -/
def Insertion.smallCollection : List Insertion :=
  [.file "a/b/c" [7], .directory "/a//b/", .directory "d/e", .file "d/f" [], .directory ""]

theorem Insertion.smallCollection_compatible : Compatible smallCollection :=
  compatible_of_additions [
      .leaf ⟨[⟨"a", rfl⟩, ⟨"b", rfl⟩, ⟨"c", rfl⟩]⟩ [7],
      .directory ⟨[⟨"a", rfl⟩, ⟨"b", rfl⟩]⟩,
      .directory ⟨[⟨"d", rfl⟩, ⟨"e", rfl⟩]⟩,
      .leaf ⟨[⟨"d", rfl⟩, ⟨"f", rfl⟩]⟩ [],
      .directory .root]
    (by decide +kernel) (by decide +kernel)

/-- With the last call made first the root lists its directories the other way round. -/
theorem Insertion.orders_agree_small :
    Compatible smallCollection ∧
      (Source.ofMemory (MemoryTree.after smallCollection) true).SameButOrder
        (.ofMemory (MemoryTree.after smallCollection.reverse) true) ∧
      (MemoryTree.after smallCollection).children .root =
        ((MemoryTree.after smallCollection.reverse).children .root).reverse := by
  refine ⟨smallCollection_compatible, ?_, by decide +kernel⟩
  exact (orders_agree smallCollection_compatible).2 _ _ (.refl _) (List.reverse_perm _) true

end AssetUnpack
