import AssetUnpack.Proofs.AssetPath.Keeping
import AssetUnpack.Proofs.Disk.Descent

/-!
# Paths of assets below a base

An asset is laid out below a base at the base with the names of its path pushed onto
it. What a push does to the text depends on how the text ends, but it always puts one
component behind those that are there (`components_push`), for a name is never a dot,
never two of them and never holds a slash. So the names of a path are the components
behind those of the base, whatever the base is: an empty text, one that ends in a
slash or in a dot, one that goes up.

With that no two paths come to the same components below a base, let alone to the
same text. `MirrorLaws` gathers this for a way to find paths below a base, of which
there are two: pushing the names of a path that is kept as a list of names, and
pushing the segments of one that is kept as a text.
-/

namespace AssetUnpack

namespace HostPath

/-! ## Components -/

/-- One component of a path of the host. -/
inductive Component
  /-- The root of the disk, from which an absolute path starts. -/
  | root
  /-- A dot with which a relative path starts. -/
  | here
  | above
  | name (text : String)
  deriving DecidableEq

/-- The text of a component. -/
def Component.text : Component → String
  | root => "/"
  | here => "."
  | above => ".."
  | name text => text

/-- The component that a part between slashes is. -/
def Component.ofPart (part : List Char) : Component :=
  if part = ['.', '.'] then .above else .name (String.ofList part)

/-- The components that parts between slashes are; empty parts and dots are none. -/
def componentsOf (parts : List (List Char)) : List Component :=
  (parts.filter fun part => part ≠ [] ∧ part ≠ ['.']).map Component.ofPart

/-- The components of a path. Slashes that are repeated or at the end make no
difference, nor do dots, except one with which the path starts. -/
def components (p : HostPath) : List Component :=
  let parts := Text.splitOn '/' p.text.toList
  let start :=
    if p.isAbsolute then [.root] else if parts.head? = some ['.'] then [.here] else []
  start ++ componentsOf parts

example : components ⟨"./a//b/./../c/"⟩ = [.here, .name "a", .name "b", .above, .name "c"] := by
  decide

theorem componentsOf_append (ps qs : List (List Char)) :
    componentsOf (ps ++ qs) = componentsOf ps ++ componentsOf qs := by
  rw [componentsOf, List.filter_append, List.map_append]
  rfl

theorem toList_ne_dots (n : Name) : n.text.toList ≠ ['.'] ∧ n.text.toList ≠ ['.', '.'] := by
  have hne : ∀ s : String, n.text ≠ s → n.text.toList ≠ s.toList := fun s h htext =>
    h (String.toList_inj.mp htext)
  exact ⟨hne "." n.entryName.ne_here, hne ".." n.entryName.ne_above⟩

theorem componentsOf_name (n : Name) : componentsOf [n.text.toList] = [.name n.text] := by
  obtain ⟨hhere, habove⟩ := toList_ne_dots n
  rw [componentsOf, List.filter_cons_of_pos (by simp [n.toList_ne_nil, hhere])]
  simp [Component.ofPart, habove]

theorem isAbsolute_name (n : Name) : isAbsolute ⟨n.text⟩ = false := by
  rw [isAbsolute, beq_eq_false_iff_ne]
  exact fun h => n.entryName.no_slash (List.mem_of_mem_head? h)

/-- The parts of a path with a name pushed onto it. An empty part at the end, behind
the last slash, gives way to the name. -/
theorem splitOn_push {p : HostPath} (h : p.text ≠ "") (n : Name) :
    ∃ front, Text.splitOn '/' (p.push n).text.toList = front ++ [n.text.toList] ∧ front ≠ [] ∧
      (Text.splitOn '/' p.text.toList = front ∨ Text.splitOn '/' p.text.toList = front ++ [[]]) := by
  have hname := Text.splitOn_of_not_mem n.entryName.no_slash
  rcases p.toList_push n with ⟨htext, hnil | ⟨cs, hcs⟩⟩ | htext
  · exact absurd (String.toList_eq_nil_iff.mp hnil) h
  · refine ⟨Text.splitOn '/' cs, ?_, Text.splitOn_ne_nil _ _, Or.inr ?_⟩
    · rw [htext, hcs, List.append_assoc, List.singleton_append, Text.splitOn_append, hname]
    · rw [hcs, Text.splitOn_append]
      rfl
  · refine ⟨Text.splitOn '/' p.text.toList, ?_, Text.splitOn_ne_nil _ _, Or.inl rfl⟩
    rw [htext, Text.splitOn_append, hname]

/-- A name that is pushed is one more component. -/
theorem components_push (p : HostPath) (n : Name) :
    (p.push n).components = p.components ++ [.name n.text] := by
  by_cases h : p.text = ""
  · obtain rfl : p = ⟨""⟩ := congrArg HostPath.mk h
    have hpush : HostPath.push ⟨""⟩ n = ⟨n.text⟩ := congrArg HostPath.mk String.empty_append
    have hhere : [n.text.toList].head? ≠ some ['.'] := fun hdot =>
      (toList_ne_dots n).1 (Option.some.inj hdot)
    rw [hpush, components, isAbsolute_name, Text.splitOn_of_not_mem n.entryName.no_slash,
      if_neg (by decide), if_neg hhere, componentsOf_name]
    rfl
  · obtain ⟨front, hpush, hne, hparts⟩ := splitOn_push h n
    have habsolute := isAbsolute_push_eq h n
    have hhead : (Text.splitOn '/' p.text.toList).head? = front.head? := by
      rcases hparts with hparts | hparts
      · rw [hparts]
      · rw [hparts, List.head?_append_of_ne_nil _ hne]
    have hnamed : componentsOf (Text.splitOn '/' p.text.toList) = componentsOf front := by
      rcases hparts with hparts | hparts
      · rw [hparts]
      · rw [hparts, componentsOf_append]
        exact List.append_nil _
    simp only [components]
    rw [hpush, habsolute, hhead, hnamed, List.head?_append_of_ne_nil _ hne, componentsOf_append,
      componentsOf_name, List.append_assoc]

/-- What is pushed onto a base stands behind its components, name by name. -/
theorem components_under (base : HostPath) (p : AssetPath) :
    (base.under p).components = base.components ++ p.names.map fun n => .name n.text := by
  obtain ⟨names⟩ := p
  induction names generalizing base with
  | nil => exact (List.append_nil _).symm
  | cons n names ih =>
      have hstep : base.under ⟨n :: names⟩ = (base.push n).under ⟨names⟩ := rfl
      rw [hstep, ih, components_push, List.append_assoc]
      rfl

theorem components_under_injective {base : HostPath} {p q : AssetPath}
    (h : (base.under p).components = (base.under q).components) : p = q := by
  obtain ⟨ns⟩ := p
  obtain ⟨ms⟩ := q
  rw [components_under, components_under] at h
  have hnames := congrArg (List.map Component.text) (List.append_cancel_left h)
  rw [List.map_map, List.map_map] at hnames
  exact congrArg AssetPath.mk (map_text_injective hnames)

/-! ## Texts -/

/-- The path with a text pushed onto it. A text that starts with a slash is a path of
its own. -/
def pushText (p : HostPath) (s : String) : HostPath :=
  if isAbsolute ⟨s⟩ then ⟨s⟩
  else if p.text.toList = [] ∨ p.text.toList.getLast? = some '/' then ⟨p.text ++ s⟩
  else ⟨p.text ++ "/" ++ s⟩

theorem pushText_name (p : HostPath) (n : Name) : p.pushText n.text = p.push n := by
  rw [pushText, if_neg (by simp [isAbsolute_name]), push]

end HostPath

/-- The place below a base of a path that is kept as a text. -/
def PathText.mirrorUnder (base : HostPath) (s : String) : HostPath :=
  (AssetPath.segments s).foldl HostPath.pushText base

theorem PathText.mirrorUnder_text (base : HostPath) (p : AssetPath) :
    mirrorUnder base p.text = base.under p := by
  obtain ⟨names⟩ := p
  rw [mirrorUnder, AssetPath.segments_text, List.foldl_map]
  simp only [HostPath.pushText_name]
  rfl

example : PathText.mirrorUnder ⟨"out/"⟩ "a/b" = ⟨"out/a/b"⟩ ∧
    PathText.mirrorUnder ⟨""⟩ "a/b" = ⟨"a/b"⟩ := by decide

namespace PathKeeping

variable {α : Type} {k : PathKeeping α} {f : AssetPath → α} {mirror : HostPath → α → HostPath}

/-- The place of a path below a base is found by the names of the path, which stand
behind the components of the base, and leads back to the path. -/
structure MirrorLaws (k : PathKeeping α) (mirror : HostPath → α → HostPath) (base : HostPath)
    (p q : α) : Prop where
  components : (mirror base p).components = base.components ++ (k.names p).map .name
  injective : (mirror base p).components = (mirror base q).components → p = q
  join : ∀ name, k.join p name = .ok q → mirror base q = (mirror base p).pushText name

theorem Keeps.mirrorLaws (hk : Keeps k f) (hmirror : ∀ base p, mirror base (f p) = base.under p)
    (base : HostPath) (p q : AssetPath) : k.MirrorLaws mirror base (f p) (f q) where
  components := by
    rw [hmirror, HostPath.components_under, hk.names, List.map_map]
    rfl
  injective h := by
    rw [hmirror, hmirror] at h
    rw [HostPath.components_under_injective h]
  join name h := by
    obtain ⟨n, rfl, hq⟩ := hk.join_eq_ok.mp h
    rw [hmirror, hmirror, ← hk.injective _ _ hq, HostPath.pushText_name]
    exact List.foldl_append

theorem names_mirrorLaws (base : HostPath) (p q : AssetPath) :
    AssetPath.keeping.MirrorLaws HostPath.under base p q :=
  keeps_names.mirrorLaws (fun _ _ => rfl) base p q

theorem text_mirrorLaws (base : HostPath) {p q : String} (hp : PathText.keeping.Obtained p)
    (hq : PathText.keeping.Obtained q) :
    PathText.keeping.MirrorLaws PathText.mirrorUnder base p q := by
  obtain ⟨p, rfl⟩ := keeps_text.exists_of_obtained hp
  obtain ⟨q, rfl⟩ := keeps_text.exists_of_obtained hq
  exact keeps_text.mirrorLaws PathText.mirrorUnder_text base p q

end PathKeeping

end AssetUnpack
