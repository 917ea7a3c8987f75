import AssetUnpack.Proofs.AssetPath.Texts

/-!
# Two ways to keep a path

A path can be kept as a list of names or as one text. `PathKeeping` is what can be
done with a path in either way, and `Keeps` says that some way of keeping paths does
what lists of names do. Lists of names do so trivially, and texts do so by the lemmas
of `Texts.lean` (`keeps_text`).

Whatever keeps paths has the laws of lists of names, for every path that can be had
(`Obtained`): it is read back from its text, joining and going up undo each other
(`Canonical`), and prefixes of paths are prefixes of their names (`PrefixLaws`). So
for texts the laws need no look at slashes any more, and nothing that can be had is
ever without them.
-/

namespace AssetUnpack

/-- What can be done with paths that are kept as some type. -/
structure PathKeeping (α : Type) where
  root : α
  parse : String → Except InvalidPath α
  join : α → String → Except InvalidPath α
  parent? : α → Option α
  strip? : α → α → Option α
  text : α → String
  names : α → List String
  fileName? : α → Option String
  depth : α → Nat
  isRoot : α → Bool
  startsWith : α → α → Bool

/-- Paths kept as lists of names. -/
def AssetPath.keeping : PathKeeping AssetPath where
  root := .root
  parse := parse
  join := join
  parent? := parent?
  strip? := stripBase?
  text := text
  names p := p.names.map (·.text)
  fileName? p := p.fileName?.map (·.text)
  depth := depth
  isRoot := isRoot
  startsWith := startsWith

/-- Paths kept as texts. -/
def PathText.keeping : PathKeeping String where
  root := ""
  parse := parse
  join := join
  parent? := parent?
  strip? := strip?
  text := id
  names := AssetPath.segments
  fileName? := fileName?
  depth := depth
  isRoot s := decide (s = "")
  startsWith := startsWith

namespace PathKeeping

variable {α : Type} {k : PathKeeping α}

/-- The paths that can be had: each comes from the root or from a text, and is led to
by any of the operations in any order. -/
inductive Obtained (k : PathKeeping α) : α → Prop
  | root : Obtained k k.root
  | parse {s : String} {p : α} (h : k.parse s = .ok p) : Obtained k p
  | join {p q : α} {name : String} (hp : Obtained k p) (h : k.join p name = .ok q) : Obtained k q
  | parent {p q : α} (hp : Obtained k p) (h : k.parent? p = some q) : Obtained k q
  | strip {p b q : α} (hp : Obtained k p) (hb : Obtained k b) (h : k.strip? p b = some q) :
      Obtained k q

/-- A path whose text spells its names and nothing else, with one path below it for
every name, from which the way up leads back. -/
structure Canonical (k : PathKeeping α) (p : α) : Prop where
  again : k.parse (k.text p) = .ok p
  spelled : k.text p = "/".intercalate (k.names p)
  named : ∀ n ∈ k.names p, EntryName n ∧ '\\' ∉ n.toList
  counted : k.depth p = (k.names p).length
  joins : ∀ n, (∃ q, k.join p n = .ok q) ↔ EntryName n ∧ '\\' ∉ n.toList
  joined : ∀ n q, k.join p n = .ok q →
    k.parent? q = some p ∧ k.fileName? q = some n ∧ k.depth q = k.depth p + 1
  rejoined : p ≠ k.root →
    ∃ q n, k.parent? p = some q ∧ k.fileName? p = some n ∧ k.join q n = .ok p
  root_iff_isRoot : p = k.root ↔ k.isRoot p = true
  root_iff_depth : p = k.root ↔ k.depth p = 0
  root_iff_parent : p = k.root ↔ k.parent? p = none
  root_iff_fileName : p = k.root ↔ k.fileName? p = none

/-- Prefixes of paths are prefixes of names, and what is below a base is found by
taking the names of the base away. -/
structure PrefixLaws (k : PathKeeping α) (p b c : α) : Prop where
  startsWith_iff : k.startsWith p b = true ↔ k.names b <+: k.names p
  refl : k.startsWith p p = true
  trans : k.startsWith p b = true → k.startsWith b c = true → k.startsWith p c = true
  antisymm : k.startsWith p b = true → k.startsWith b p = true → p = b
  strips : (∃ q, k.strip? p b = some q) ↔ k.startsWith p b = true
  stripped : ∀ q, k.strip? p b = some q →
    k.Canonical q ∧ k.names p = k.names b ++ k.names q ∧ (k.names q).foldlM k.join b = .ok p
  /-- Taking away `b` and then `c` is taking away both at once. -/
  twice : ∃ bc, (k.names c).foldlM k.join b = .ok bc ∧ k.names bc = k.names b ++ k.names c ∧
    (k.strip? p b).bind (k.strip? · c) = k.strip? p bc

/-- Paths are kept as lists of names are, when `f` tells how such a list is kept. -/
structure Keeps (k : PathKeeping α) (f : AssetPath → α) : Prop where
  injective : ∀ p q, f p = f q → p = q
  root : k.root = f .root
  parse : ∀ s, k.parse s = (AssetPath.parse s).map f
  join : ∀ p n, k.join (f p) n = (p.join n).map f
  parent? : ∀ p, k.parent? (f p) = p.parent?.map f
  strip? : ∀ p b, k.strip? (f p) (f b) = (p.stripBase? b).map f
  text : ∀ p, k.text (f p) = p.text
  names : ∀ p, k.names (f p) = p.names.map (·.text)
  fileName? : ∀ p, k.fileName? (f p) = p.fileName?.map (·.text)
  depth : ∀ p, k.depth (f p) = p.depth
  isRoot : ∀ p, k.isRoot (f p) = p.isRoot
  startsWith : ∀ p b, k.startsWith (f p) (f b) = p.startsWith b

theorem keeps_names : Keeps AssetPath.keeping id where
  injective _ _ h := h
  root := rfl
  parse s := by cases h : AssetPath.parse s <;> exact h
  join p n := by cases h : p.join n <;> exact h
  parent? _ := Option.map_id'.symm
  strip? _ _ := Option.map_id'.symm
  text _ := rfl
  names _ := rfl
  fileName? _ := rfl
  depth _ := rfl
  isRoot _ := rfl
  startsWith _ _ := rfl

theorem keeps_text : Keeps PathText.keeping AssetPath.text where
  injective _ _ := AssetPath.text_injective
  root := rfl
  parse := PathText.parse_eq
  join := PathText.join_text
  parent? := PathText.parent?_text
  strip? := PathText.strip?_text
  text _ := rfl
  names := AssetPath.segments_text
  fileName? p := by
    simp only [PathText.keeping]
    exact PathText.fileName?_text p
  depth := PathText.depth_text
  isRoot p := by
    rw [Bool.eq_iff_iff, AssetPath.isRoot_iff, ← PathText.text_eq_empty_iff]
    exact decide_eq_true_iff
  startsWith := PathText.startsWith_text

namespace Keeps

variable {f : AssetPath → α}

theorem join_eq_ok (hk : Keeps k f) {p : AssetPath} {n : String} {a : α} :
    k.join (f p) n = .ok a ↔ ∃ m : Name, m.text = n ∧ f (p.child m) = a := by
  rw [hk.join]
  constructor
  · intro h
    cases hj : p.join n with
    | error e =>
        rw [hj] at h
        cases h
    | ok q =>
        rw [hj] at h
        obtain ⟨m, hm, rfl⟩ := AssetPath.join_eq_ok.mp hj
        exact ⟨m, hm, Except.ok.inj h⟩
  · intro h
    obtain ⟨m, hm, rfl⟩ := h
    rw [AssetPath.join_eq_ok.mpr ⟨m, hm, rfl⟩]
    rfl

/-- Every path that can be had is kept for some list of names. -/
theorem exists_of_obtained (hk : Keeps k f) {a : α} (ha : k.Obtained a) : ∃ p, a = f p := by
  have hopt : ∀ {o : Option AssetPath} {q : α}, o.map f = some q → ∃ p, q = f p := by
    intro o q h
    obtain ⟨p, -, hp⟩ := Option.map_eq_some_iff.mp h
    exact ⟨p, hp.symm⟩
  induction ha with
  | root => exact ⟨_, hk.root⟩
  | @parse s q h =>
      rw [hk.parse] at h
      cases hs : AssetPath.parse s with
      | error e =>
          rw [hs] at h
          cases h
      | ok p =>
          rw [hs] at h
          exact ⟨p, (Except.ok.inj h).symm⟩
  | join _ h ih =>
      obtain ⟨p, rfl⟩ := ih
      obtain ⟨m, -, hq⟩ := hk.join_eq_ok.mp h
      exact ⟨_, hq.symm⟩
  | parent _ h ih =>
      obtain ⟨p, rfl⟩ := ih
      rw [hk.parent?] at h
      exact hopt h
  | strip _ _ h ihp ihb =>
      obtain ⟨p, rfl⟩ := ihp
      obtain ⟨b, rfl⟩ := ihb
      rw [hk.strip?] at h
      exact hopt h

theorem fileName?_child (hk : Keeps k f) (p : AssetPath) (n : Name) :
    k.fileName? (f (p.child n)) = some n.text := by
  rw [hk.fileName?, AssetPath.fileName?_child]
  rfl

theorem parent?_child (hk : Keeps k f) (p : AssetPath) (n : Name) :
    k.parent? (f (p.child n)) = some (f p) := by
  rw [hk.parent?, AssetPath.parent?_child]
  rfl

theorem depth_child (hk : Keeps k f) (p : AssetPath) (n : Name) :
    k.depth (f (p.child n)) = k.depth (f p) + 1 := by
  rw [hk.depth, hk.depth]
  exact List.length_append

theorem child_ne_root (hk : Keeps k f) (p : AssetPath) (n : Name) : f (p.child n) ≠ k.root := by
  rw [hk.root]
  exact fun h => p.child_ne_root n (hk.injective _ _ h)

theorem canonical (hk : Keeps k f) (p : AssetPath) : k.Canonical (f p) where
  again := by
    rw [hk.text, hk.parse, p.parse_text]
    rfl
  spelled := by rw [hk.text, hk.names, p.text_eq_intercalate]
  named n hn := by
    rw [hk.names] at hn
    obtain ⟨m, -, rfl⟩ := List.mem_map.mp hn
    exact nameFault?_eq_none_iff.mp m.valid
  counted := by rw [hk.depth, hk.names, List.length_map, AssetPath.depth]
  joins n := by
    rw [← nameFault?_eq_none_iff]
    constructor
    · intro h
      obtain ⟨q, hq⟩ := h
      obtain ⟨m, rfl, -⟩ := hk.join_eq_ok.mp hq
      exact m.valid
    · intro h
      exact ⟨_, hk.join_eq_ok.mpr ⟨⟨n, h⟩, rfl, rfl⟩⟩
  joined n q hq := by
    obtain ⟨m, rfl, rfl⟩ := hk.join_eq_ok.mp hq
    exact ⟨hk.parent?_child p m, hk.fileName?_child p m, hk.depth_child p m⟩
  rejoined hp := by
    rcases p.eq_root_or_child with rfl | ⟨q, n, rfl⟩
    · exact absurd hk.root.symm hp
    · exact ⟨f q, n.text, hk.parent?_child q n, hk.fileName?_child q n,
        hk.join_eq_ok.mpr ⟨n, rfl, rfl⟩⟩
  root_iff_isRoot := by
    rw [hk.isRoot, AssetPath.isRoot_iff, hk.root]
    exact ⟨hk.injective _ _, congrArg f⟩
  root_iff_depth := by
    rcases p.eq_root_or_child with rfl | ⟨q, n, rfl⟩
    · exact iff_of_true hk.root.symm (hk.depth _)
    · exact iff_of_false (hk.child_ne_root q n) (by rw [hk.depth_child]; omega)
  root_iff_parent := by
    rcases p.eq_root_or_child with rfl | ⟨q, n, rfl⟩
    · exact iff_of_true hk.root.symm (hk.parent? _)
    · exact iff_of_false (hk.child_ne_root q n) (by rw [hk.parent?_child]; simp)
  root_iff_fileName := by
    rcases p.eq_root_or_child with rfl | ⟨q, n, rfl⟩
    · exact iff_of_true hk.root.symm (hk.fileName? _)
    · exact iff_of_false (hk.child_ne_root q n) (by rw [hk.fileName?_child]; simp)

theorem startsWith_iff (hk : Keeps k f) {p b : AssetPath} :
    k.startsWith (f p) (f b) = true ↔ b.names <+: p.names := by
  rw [hk.startsWith, AssetPath.startsWith, List.isPrefixOf_iff_prefix]

theorem strip?_eq_some (hk : Keeps k f) {p b : AssetPath} {a : α} :
    k.strip? (f p) (f b) = some a ↔ ∃ q, p = b.append q ∧ f q = a := by
  rw [hk.strip?, Option.map_eq_some_iff]
  simp only [AssetPath.stripBase?_eq_some]

/-- Joining the names of a path one by one. -/
theorem foldlM_join (hk : Keeps k f) (b q : AssetPath) :
    (k.names (f q)).foldlM k.join (f b) = .ok (f (b.append q)) := by
  obtain ⟨ns⟩ := q
  rw [hk.names]
  induction ns generalizing b with
  | nil =>
      rw [← AssetPath.root, AssetPath.append_root]
      rfl
  | cons n ns ih =>
      have hstep : k.join (f b) n.text = .ok (f (b.child n)) := hk.join_eq_ok.mpr ⟨n, rfl, rfl⟩
      rw [List.map_cons, List.foldlM_cons, hstep]
      refine (ih (b.child n)).trans ?_
      simp [AssetPath.append, AssetPath.child]

theorem names_append (hk : Keeps k f) (b q : AssetPath) :
    k.names (f (b.append q)) = k.names (f b) ++ k.names (f q) := by
  rw [hk.names, hk.names, hk.names, AssetPath.append, List.map_append]

theorem map_text_prefix_iff {ns ms : List Name} :
    ns.map (·.text) <+: ms.map (·.text) ↔ ns <+: ms := by
  refine ⟨fun h => ?_, fun h => h.map _⟩
  obtain ⟨rest, hrest⟩ := h
  obtain ⟨front, back, rfl, hfront, -⟩ := List.map_eq_append_iff.mp hrest.symm
  rw [map_text_injective hfront]
  exact List.prefix_append _ _

theorem prefixLaws (hk : Keeps k f) (p b c : AssetPath) : k.PrefixLaws (f p) (f b) (f c) where
  startsWith_iff := by rw [hk.startsWith_iff, hk.names, hk.names, map_text_prefix_iff]
  refl := hk.startsWith_iff.mpr (List.prefix_refl _)
  trans hb hc := by
    rw [hk.startsWith_iff] at hb hc ⊢
    exact hc.trans hb
  antisymm hb hp := by
    rw [hk.startsWith_iff] at hb hp
    exact congrArg (fun ns => f ⟨ns⟩) (hp.eq_of_length_le hb.length_le)
  strips := by
    rw [hk.startsWith_iff]
    constructor
    · intro h
      obtain ⟨a, ha⟩ := h
      obtain ⟨q, rfl, -⟩ := hk.strip?_eq_some.mp ha
      exact List.prefix_append _ _
    · intro h
      obtain ⟨rest, hrest⟩ := h
      exact ⟨_, hk.strip?_eq_some.mpr ⟨⟨rest⟩, congrArg AssetPath.mk hrest.symm, rfl⟩⟩
  stripped a ha := by
    obtain ⟨q, rfl, rfl⟩ := hk.strip?_eq_some.mp ha
    exact ⟨hk.canonical q, hk.names_append b q, hk.foldlM_join b q⟩
  twice := by
    refine ⟨f (b.append c), hk.foldlM_join b c, hk.names_append b c, ?_⟩
    ext a
    rw [hk.strip?_eq_some, Option.bind_eq_some_iff]
    constructor
    · intro h
      obtain ⟨a', ha', ha⟩ := h
      obtain ⟨q, rfl, rfl⟩ := hk.strip?_eq_some.mp ha'
      obtain ⟨r, rfl, rfl⟩ := hk.strip?_eq_some.mp ha
      exact ⟨r, congrArg AssetPath.mk (List.append_assoc _ _ _).symm, rfl⟩
    · intro h
      obtain ⟨r, rfl, rfl⟩ := h
      refine ⟨f (c.append r), hk.strip?_eq_some.mpr ⟨_, ?_, rfl⟩,
        hk.strip?_eq_some.mpr ⟨r, rfl, rfl⟩⟩
      exact congrArg AssetPath.mk (List.append_assoc _ _ _)

end Keeps

/-- In whatever order a path is read, joined, gone up from and stripped, and whether it is kept
as names or as a text, it stays canonical. -/
theorem obtained_canonical :
    (∀ p, AssetPath.keeping.Obtained p → AssetPath.keeping.Canonical p) ∧
    (∀ s, PathText.keeping.Obtained s → PathText.keeping.Canonical s) ∧
    Keeps PathText.keeping AssetPath.text := by
  refine ⟨fun p _ => keeps_names.canonical p, fun s hs => ?_, keeps_text⟩
  obtain ⟨p, rfl⟩ := keeps_text.exists_of_obtained hs
  exact keeps_text.canonical p

/-- Prefixes of paths that can be had are prefixes of their names, in either keeping. In a text
the cut behind a base is made at the end of the base, so within the text and between characters,
even if the texts are no paths. -/
theorem obtained_prefixLaws :
    (∀ p b c, AssetPath.keeping.Obtained p → AssetPath.keeping.Obtained b →
      AssetPath.keeping.Obtained c → AssetPath.keeping.PrefixLaws p b c) ∧
    (∀ p b c, PathText.keeping.Obtained p → PathText.keeping.Obtained b →
      PathText.keeping.Obtained c → PathText.keeping.PrefixLaws p b c) ∧
    ∀ p b, PathText.startsWith p b = true →
      ∃ rest, p = b ++ rest ∧ PathText.behind? p b.utf8ByteSize = some rest := by
  refine ⟨fun p b c _ _ _ => keeps_names.prefixLaws p b c, fun p b c hp hb hc => ?_,
    fun p b => PathText.behind?_of_startsWith⟩
  obtain ⟨p, rfl⟩ := keeps_text.exists_of_obtained hp
  obtain ⟨b, rfl⟩ := keeps_text.exists_of_obtained hb
  obtain ⟨c, rfl⟩ := keeps_text.exists_of_obtained hc
  exact keeps_text.prefixLaws p b c

end PathKeeping

end AssetUnpack
