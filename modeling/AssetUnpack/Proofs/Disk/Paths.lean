import AssetUnpack.Disk.Basic
import AssetUnpack.HostPath

/-!
# The path of a place leads to the place

A place is a list of names, a host path is a text, and the disk only ever sees
the text. `pathOf` writes a place as a text and `steps` reads it back; as long
as every name is one that a directory can hold, nothing is lost on the way.
The names that asset paths are made of are of that kind, so pushing them onto
the path of a place is the same as appending them to the place itself: that is
`under_pathOf`, by which every statement about the text of a destination turns
into one about lists of names.
-/

namespace AssetUnpack

/-- A text that a directory can hold an entry under: it is one step of a path
and stands for itself. -/
structure EntryName (s : String) : Prop where
  ne_empty : s ≠ ""
  ne_here : s ≠ "."
  ne_above : s ≠ ".."
  no_slash : '/' ∉ s.toList
  no_nul : '\x00' ∉ s.toList

/-- What a text must be to pass as a name of an asset path. -/
theorem nameFault?_eq_none_iff {s : String} :
    nameFault? s = none ↔ EntryName s ∧ '\\' ∉ s.toList := by
  unfold nameFault?
  constructor
  · intro h
    split at h
    · cases h
    split at h
    · cases h
    split at h
    · cases h
    split at h
    · cases h
    split at h
    · cases h
    rename_i hempty hhere habove hsep hnul
    rw [not_or] at hsep
    exact ⟨⟨hempty, hhere, habove, hsep.1, hnul⟩, hsep.2⟩
  · rintro ⟨⟨hempty, hhere, habove, hslash, hnul⟩, hback⟩
    rw [if_neg hempty, if_neg hhere, if_neg habove,
      if_neg (not_or.mpr ⟨hslash, hback⟩), if_neg hnul]

theorem Name.entryName (n : Name) : EntryName n.text :=
  (nameFault?_eq_none_iff.mp n.valid).1

theorem Name.toList_ne_nil (n : Name) : n.text.toList ≠ [] :=
  fun hnil => n.entryName.ne_empty (String.toList_eq_nil_iff.mp hnil)

/-- The place of an asset below a base: its names behind those of the base. -/
def AssetPath.below (q : AssetPath) (base : Place) : Place :=
  base ++ q.names.map (·.text)

theorem AssetPath.below_root (base : Place) : AssetPath.root.below base = base := by
  simp [AssetPath.below, AssetPath.root]

theorem AssetPath.below_snoc (names : List Name) (n : Name) (base : Place) :
    AssetPath.below ⟨names ++ [n]⟩ base = AssetPath.below ⟨names⟩ base ++ [n.text] := by
  simp [AssetPath.below]

theorem map_text_injective {ns ms : List Name}
    (h : ns.map (·.text) = ms.map (·.text)) : ns = ms := by
  have htext : ∀ n m : Name, n.text = m.text → n = m := by
    rintro ⟨s, hs⟩ ⟨t, ht⟩ h
    obtain rfl : s = t := h
    rfl
  exact (List.map_inj_right htext).mp h

theorem AssetPath.below_injective {p q : AssetPath} {base : Place}
    (h : p.below base = q.below base) : p = q := by
  obtain ⟨ns⟩ := p
  obtain ⟨ms⟩ := q
  have : ns = ms := map_text_injective (List.append_cancel_left h)
  rw [this]

theorem AssetPath.below_prefix (base : Place) {p q : AssetPath} (h : p.names <+: q.names) :
    p.below base <+: q.below base :=
  (List.prefix_append_right_inj base).mpr (h.map _)

theorem AssetPath.ne_root_of_deep {p : AssetPath} (h : 1 ≤ p.depth) : p ≠ .root := by
  rintro rfl
  exact absurd h (by decide)

namespace Disk

theorem joinWith_eq_intercalate (sep : Char) (parts : List (List Char)) :
    Text.joinWith sep parts = [sep].intercalate parts := by
  induction parts with
  | nil => rfl
  | cons part parts ih =>
      cases parts with
      | nil => simp [Text.joinWith]
      | cons next parts => rw [Text.joinWith, ih]; simp

theorem toList_pathOf (place : Place) :
    (pathOf place).toList = '/' :: Text.joinWith '/' (place.map (·.toList)) := by
  rw [joinWith_eq_intercalate]
  simp [pathOf]

theorem isAbsolute_pathOf (place : Place) : HostPath.isAbsolute ⟨pathOf place⟩ = true := by
  simp [HostPath.isAbsolute, toList_pathOf]

theorem no_nul_joinWith {parts : List (List Char)} (h : ∀ part ∈ parts, '\x00' ∉ part) :
    '\x00' ∉ Text.joinWith '/' parts := by
  induction parts with
  | nil => simp [Text.joinWith]
  | cons part parts ih =>
      cases parts with
      | nil => simpa [Text.joinWith] using h
      | cons next parts =>
          have hrest := ih fun p hp => h p (List.mem_cons_of_mem _ hp)
          have hpart := h part (by simp)
          simp only [Text.joinWith, List.mem_append, List.mem_cons, not_or]
          exact ⟨hpart, by decide, hrest⟩

theorem no_nul_pathOf {place : Place} (h : ∀ n ∈ place, EntryName n) :
    '\x00' ∉ (pathOf place).toList := by
  rw [toList_pathOf, List.mem_cons, not_or]
  refine ⟨by decide, no_nul_joinWith fun part hp => ?_⟩
  obtain ⟨n, hn, rfl⟩ := List.mem_map.mp hp
  exact (h n hn).no_nul

/-- The disk walks from the root through the very names of the place. -/
theorem steps_pathOf {place : Place} (h : ∀ n ∈ place, EntryName n) :
    HostPath.steps ⟨pathOf place⟩ = place := by
  cases place with
  | nil => rfl
  | cons name names =>
      have hparts : Text.splitOn '/' (pathOf (name :: names)).toList =
          [] :: (name :: names).map (·.toList) := by
        have hslash : ∀ part ∈ (name :: names).map (·.toList), '/' ∉ part := by
          intro part hp
          obtain ⟨n, hn, rfl⟩ := List.mem_map.mp hp
          exact (h n hn).no_slash
        rw [toList_pathOf, Text.splitOn, if_pos rfl, Text.splitOn_joinWith (by simp) hslash]
      have hwalked : ((name :: names).map (·.toList)).filter (· ≠ []) =
          (name :: names).map (·.toList) := by
        rw [List.filter_eq_self]
        intro part hp
        obtain ⟨n, hn, rfl⟩ := List.mem_map.mp hp
        simpa using (h n hn).ne_empty
      have hlast : ((name :: names).map (·.toList)).getLast? ≠ some [] := by
        intro hl
        obtain ⟨n, hn, hnil⟩ := List.mem_map.mp (List.mem_of_getLast? hl)
        exact (h n hn).ne_empty (String.toList_eq_nil_iff.mp hnil)
      have hlast' : ([] :: (name :: names).map (·.toList)).getLast? ≠ some [] := by
        rw [List.getLast?_cons_of_ne_nil (by simp)]
        exact hlast
      simp only [HostPath.steps, hparts]
      rw [if_neg (fun hc => hlast' hc.1), List.filter_cons_of_neg (by simp), hwalked,
        List.map_map]
      exact List.map_id'' (fun n => String.ofList_toList) _

theorem pathOf_snoc {place : Place} (h : place ≠ []) (name : String) :
    pathOf (place ++ [name]) = pathOf place ++ "/" ++ name := by
  rw [pathOf, pathOf, String.intercalate_append_of_ne_nil h (List.cons_ne_nil _ _),
    String.intercalate_singleton]
  simp only [String.append_assoc]

/-- Pushing a name onto a place's path leads one step further. -/
theorem push_pathOf {place : Place} (h : ∀ n ∈ place, EntryName n) (n : Name) :
    HostPath.push ⟨pathOf place⟩ n = ⟨pathOf (place ++ [n.text])⟩ := by
  rcases List.eq_nil_or_concat place with rfl | ⟨front, last, rfl⟩
  · have hpush : HostPath.push ⟨pathOf []⟩ n = ⟨pathOf [] ++ n.text⟩ := by
      unfold HostPath.push
      rw [if_pos (Or.inr (by rw [toList_pathOf]; rfl))]
    rw [hpush]
    simp [pathOf]
  · rw [List.concat_eq_append] at h ⊢
    have hlast := h last (by simp)
    have hend : (pathOf (front ++ [last])).toList.getLast? ≠ some '/' := by
      intro hl
      have hsplit : ∃ pre, (pathOf (front ++ [last])).toList = pre ++ last.toList := by
        refine ⟨'/' :: (if front = [] then [] else
          ("/".intercalate front).toList ++ ['/']), ?_⟩
        by_cases hf : front = []
        · subst hf
          simp [pathOf]
        · rw [pathOf_snoc hf]
          simp [hf, pathOf]
      obtain ⟨pre, hpre⟩ := hsplit
      have hne : last.toList ≠ [] := fun hnil =>
        hlast.ne_empty (String.toList_eq_nil_iff.mp hnil)
      rw [hpre, List.getLast?_append, List.getLast?_eq_some_getLast hne, Option.some_or,
        Option.some.injEq] at hl
      exact hlast.no_slash (hl ▸ List.getLast_mem hne)
    have hne : (pathOf (front ++ [last])).toList ≠ [] := by
      rw [toList_pathOf]
      exact List.cons_ne_nil _ _
    have hpush : HostPath.push ⟨pathOf (front ++ [last])⟩ n =
        ⟨pathOf (front ++ [last]) ++ "/" ++ n.text⟩ := by
      unfold HostPath.push
      rw [if_neg (not_or.mpr ⟨hne, hend⟩)]
    rw [hpush, pathOf_snoc (List.append_ne_nil_of_right_ne_nil _ (List.cons_ne_nil _ _))]

/-- The path under which an asset is laid out is the path of its place. -/
theorem under_pathOf {base : Place} (h : ∀ n ∈ base, EntryName n) (q : AssetPath) :
    HostPath.under ⟨pathOf base⟩ q = ⟨pathOf (q.below base)⟩ := by
  obtain ⟨names⟩ := q
  simp only [HostPath.under, AssetPath.below]
  induction names generalizing base with
  | nil => simp
  | cons n names ih =>
      have hbase : ∀ m ∈ base ++ [n.text], EntryName m := by
        intro m hm
        rcases List.mem_append.mp hm with hm | hm
        · exact h m hm
        · rw [List.mem_singleton.mp hm]
          exact n.entryName
      rw [List.foldl_cons, push_pathOf h, ih hbase]
      simp

theorem utf8ByteSize_pathOf_le (a b : Place) :
    (pathOf a).utf8ByteSize ≤ (pathOf (a ++ b)).utf8ByteSize := by
  by_cases ha : a = []
  · subst ha
    simp only [pathOf, String.utf8ByteSize_append, List.nil_append, String.intercalate_nil]
    exact Nat.add_le_add_left (Nat.zero_le _) _
  · by_cases hb : b = []
    · exact Nat.le_of_eq (by rw [hb, List.append_nil])
    · rw [pathOf, pathOf, String.intercalate_append_of_ne_nil ha hb]
      simp only [String.utf8ByteSize_append]
      omega

end Disk

end AssetUnpack
