import Mathlib.Data.List.Basic
import Mathlib.Data.List.TakeWhile
import AssetUnpack.Proofs.AssetPath.Segments
import AssetUnpack.Proofs.Bytes
import AssetUnpack.Proofs.NodeTree

/-!
# Paths cut out of texts

A path that is kept as one text has no list of names to take apart. The path above it
is what stands in front of the last slash, its last name is what stands behind that,
and what is below a base is found by comparing bytes and cutting the text where those
of the base end. Each of these comes to what is done with names (`parent?_text`,
`fileName?_text`, `startsWith_text`, `strip?_text`), because the names themselves hold
no slash: whatever slash is found is one that a name was put behind.

A text can only be cut between two characters. Where a text starts with the bytes of
another it starts with its characters (`exists_append_of_bytes`), so the one cut that
is made is always such a place (`behind?_of_startsWith`).
-/

namespace AssetUnpack

namespace AssetPath

/-- A path has one path below it for every name, and no other. -/
theorem join_eq_ok {p q : AssetPath} {name : String} :
    p.join name = .ok q ↔ ∃ n : Name, n.text = name ∧ p.child n = q := by
  rw [join]
  constructor
  · intro h
    cases hn : Name.ofString name with
    | error e =>
        rw [hn] at h
        cases h
    | ok n =>
        rw [hn] at h
        exact ⟨n, text_of_ofString hn, Except.ok.inj h⟩
  · rintro ⟨n, rfl, rfl⟩
    rw [n.ofString_text]
    rfl

theorem text_child (p : AssetPath) (n : Name) :
    (p.child n).text = if p.text = "" then n.text else p.text ++ "/" ++ n.text :=
  PathText.text_snoc p n

theorem eq_root_or_child (p : AssetPath) : p = .root ∨ ∃ q n, p = child q n := by
  obtain ⟨ps⟩ := p
  rcases List.eq_nil_or_concat' ps with rfl | ⟨front, n, rfl⟩
  · exact Or.inl rfl
  · exact Or.inr ⟨⟨front⟩, n, rfl⟩

theorem text_injective {p q : AssetPath} (h : p.text = q.text) : p = q := by
  have hread := p.parse_text
  rw [h, q.parse_text] at hread
  exact (Except.ok.inj hread).symm

theorem text_append {b q : AssetPath} (hb : b ≠ .root) (hq : q ≠ .root) :
    (b.append q).text = b.text ++ "/" ++ q.text := by
  have hne : ∀ {p : AssetPath}, p ≠ .root → p.names.map (·.text) ≠ [] := by
    intro p hp hnil
    exact hp (congrArg AssetPath.mk (List.map_eq_nil_iff.mp hnil))
  rw [text_eq_intercalate, text_eq_intercalate, text_eq_intercalate, append, List.map_append,
    String.intercalate_append_of_ne_nil (hne hb) (hne hq)]

end AssetPath

namespace PathText

open AssetPath (segments)

/-! ## The last slash -/

/-- What stands in front of the last slash of a text, if it has one. -/
def beforeLast? (s : String) : Option String :=
  match s.toList.reverse.dropWhile (· ≠ '/') with
  | [] => none
  | _ :: front => some (String.ofList front.reverse)

/-- What stands behind the last slash of a text, which is all of it if it has none. -/
def behindLast (s : String) : String :=
  String.ofList (s.toList.reverse.takeWhile (· ≠ '/')).reverse

theorem beforeLast?_of_not_mem {s : String} (h : '/' ∉ s.toList) : beforeLast? s = none := by
  have hnil : s.toList.reverse.dropWhile (· ≠ '/') = [] := by
    rw [List.dropWhile_eq_nil_iff]
    intro c hc
    simpa using ne_of_mem_of_not_mem (List.mem_reverse.mp hc) h
  rw [beforeLast?, hnil]

theorem behindLast_of_not_mem {s : String} (h : '/' ∉ s.toList) : behindLast s = s := by
  have hall : s.toList.reverse.takeWhile (· ≠ '/') = s.toList.reverse := by
    rw [List.takeWhile_eq_self_iff]
    intro c hc
    simpa using ne_of_mem_of_not_mem (List.mem_reverse.mp hc) h
  rw [behindLast, hall, List.reverse_reverse, String.ofList_toList]

/-- Cutting at the last slash undoes putting a part without slashes behind one. -/
theorem cut_append (a : String) {b : String} (h : '/' ∉ b.toList) :
    beforeLast? (a ++ "/" ++ b) = some a ∧ behindLast (a ++ "/" ++ b) = b := by
  have hchars : (a ++ "/" ++ b).toList.reverse = b.toList.reverse ++ '/' :: a.toList.reverse := by
    simp
  have hno : ∀ c ∈ b.toList.reverse, decide (c ≠ '/') = true := by
    intro c hc
    simpa using ne_of_mem_of_not_mem (List.mem_reverse.mp hc) h
  constructor
  · rw [beforeLast?, hchars, List.dropWhile_append_of_pos hno, List.dropWhile_cons_of_neg (by simp)]
    simp
  · rw [behindLast, hchars, List.takeWhile_append_of_pos hno, List.takeWhile_cons_of_neg (by simp)]
    simp

/-! ## One level up -/

/-- Number of names. -/
def depth (s : String) : Nat := (segments s).length

/-- The last name: what stands behind the last slash, unless that is nothing. -/
def fileName? (s : String) : Option String :=
  if behindLast s = "" then none else some (behindLast s)

/-- The path one level above: what stands in front of the last slash, or nothing. -/
def parent? (s : String) : Option String :=
  if s = "" then none else some ((beforeLast? s).getD "")

theorem depth_text (p : AssetPath) : depth p.text = p.depth := by
  rw [depth, AssetPath.segments_text, List.length_map, AssetPath.depth]

theorem fileName?_text (p : AssetPath) : fileName? p.text = p.fileName?.map Name.text := by
  rcases p.eq_root_or_child with rfl | ⟨q, n, rfl⟩
  · rfl
  have hlast : behindLast (q.child n).text = n.text := by
    rw [AssetPath.text_child]
    split
    · exact behindLast_of_not_mem n.entryName.no_slash
    · exact (cut_append q.text n.entryName.no_slash).2
  rw [fileName?, hlast, if_neg n.entryName.ne_empty, AssetPath.fileName?_child]
  rfl

theorem parent?_text (p : AssetPath) : parent? p.text = p.parent?.map AssetPath.text := by
  rcases p.eq_root_or_child with rfl | ⟨q, n, rfl⟩
  · rfl
  have hne : (q.child n).text ≠ "" :=
    fun h => AssetPath.child_ne_root q n (text_eq_empty_iff.mp h)
  have hfront : (beforeLast? (q.child n).text).getD "" = q.text := by
    rw [AssetPath.text_child]
    split
    · next hroot =>
        rw [beforeLast?_of_not_mem n.entryName.no_slash, hroot]
        rfl
    · rw [(cut_append q.text n.entryName.no_slash).1]
      rfl
  rw [parent?, if_neg hne, hfront, AssetPath.parent?_child]
  rfl

/-! ## Below a base -/

/-- What a text holds behind so many bytes. Nothing, if it has not so many or they end inside
a character. -/
def behind? (s : String) (bytes : Nat) : Option String :=
  if h : (⟨bytes⟩ : String.Pos.Raw).IsValid s then some (s.extract ⟨⟨bytes⟩, h⟩ s.endPos) else none

/-- Whether `p` is `base` or lies below it: unless `base` is nothing or all of `p`, the bytes of
`p` start with those of `base`, and the next one is a slash. -/
def startsWith (p base : String) : Bool :=
  decide (base = "") || decide (p = base) ||
    ((Bytes.ofString base).isPrefixOf (Bytes.ofString p) &&
      decide ((Bytes.ofString p)[base.utf8ByteSize]? = some 0x2F))

/-- The rest of `p` below `base`: what stands behind its bytes, without the slashes in front. -/
def strip? (p base : String) : Option String :=
  if startsWith p base = false then none
  else if base = "" then some p
  else (behind? p base.utf8ByteSize).map fun rest => String.ofList (rest.toList.dropWhile (· = '/'))

theorem behind?_append (a b : String) : behind? (a ++ b) a.utf8ByteSize = some b := by
  have hvalid : (⟨a.utf8ByteSize⟩ : String.Pos.Raw).IsValid (a ++ b) :=
    String.Pos.Raw.isValid_iff_exists_append.mpr ⟨a, b, rfl, rfl⟩
  rw [behind?, dif_pos hvalid, Option.some.injEq, ← String.toByteArray_inj,
    String.toByteArray_extract, String.toByteArray_append]
  exact ByteArray.extract_append_eq_right rfl (by simp)

/-- A text that starts with the bytes of another starts with its characters. -/
theorem exists_append_of_bytes {b p : String} (h : Bytes.ofString b <+: Bytes.ofString p) :
    ∃ rest, p = b ++ rest := by
  obtain ⟨bytes, hbytes⟩ := h
  have hencoded : b.toList.utf8Encode ++ ⟨bytes.toArray⟩ = p.toList.utf8Encode := by
    rw [String.utf8Encode_toList, String.utf8Encode_toList]
    apply ByteArray.ext
    apply Array.toList_inj.mp
    simpa [Bytes.ofString] using hbytes
  obtain ⟨rest, hrest⟩ := List.isPrefix_of_utf8Encode_append_eq_utf8Encode _ hencoded
  refine ⟨String.ofList rest, ?_⟩
  rw [← String.toList_inj, String.toList_append, String.toList_ofList, hrest]

theorem bytes_append (a b : String) :
    Bytes.ofString (a ++ b) = Bytes.ofString a ++ Bytes.ofString b := by
  rw [Bytes.ofString_eq, Bytes.ofString_eq, Bytes.ofString_eq, String.toList_append,
    List.flatMap_append]

theorem length_bytes (s : String) : (Bytes.ofString s).length = s.utf8ByteSize := by
  simp [Bytes.ofString]

theorem bytes_slash : Bytes.ofString "/" = [0x2F] := by decide

/-- The texts that start with a base, told by what they are made of. -/
theorem startsWith_iff {p base : String} : startsWith p base = true ↔
    base = "" ∨ p = base ∨ ∃ rest, p = base ++ "/" ++ rest := by
  simp only [startsWith, Bool.or_eq_true, Bool.and_eq_true, decide_eq_true_eq, or_assoc,
    List.isPrefixOf_iff_prefix]
  refine or_congr_right (or_congr_right ⟨fun h => ?_, fun h => ?_⟩)
  · obtain ⟨hbytes, hslash⟩ := h
    obtain ⟨rest, rfl⟩ := exists_append_of_bytes hbytes
    rw [bytes_append, ← length_bytes, List.getElem?_append_right (Nat.le_refl _), Nat.sub_self]
      at hslash
    have hnext : Bytes.ofString "/" <+: Bytes.ofString rest := by
      rw [bytes_slash]
      cases hrest : Bytes.ofString rest with
      | nil =>
          rw [hrest] at hslash
          cases hslash
      | cons b bs =>
          rw [hrest] at hslash
          obtain rfl := Option.some.inj hslash
          exact List.prefix_append [_] bs
    obtain ⟨rest', rfl⟩ := exists_append_of_bytes hnext
    exact ⟨rest', String.append_assoc.symm⟩
  · obtain ⟨rest, rfl⟩ := h
    rw [bytes_append, bytes_append, bytes_slash, List.append_assoc]
    refine ⟨List.prefix_append _ _, ?_⟩
    rw [← length_bytes, List.getElem?_append_right (Nat.le_refl _), Nat.sub_self]
    rfl

/-- The cut behind the bytes of a base is made where a character starts. -/
theorem behind?_of_startsWith {p base : String} (h : startsWith p base = true) :
    ∃ rest, p = base ++ rest ∧ behind? p base.utf8ByteSize = some rest := by
  have hstart : ∃ rest, p = base ++ rest := by
    rcases startsWith_iff.mp h with rfl | rfl | ⟨rest, rfl⟩
    · exact ⟨p, String.empty_append.symm⟩
    · exact ⟨"", String.append_empty.symm⟩
    · exact ⟨"/" ++ rest, String.append_assoc⟩
  obtain ⟨rest, rfl⟩ := hstart
  exact ⟨rest, rfl, behind?_append base rest⟩

theorem segments_append (a b : String) :
    segments (a ++ "/" ++ b) = segments a ++ segments b := by
  have hchars : (a ++ "/" ++ b).toList = a.toList ++ '/' :: b.toList := by simp
  rw [segments, hchars, Text.splitOn_append, List.filter_append, List.map_append, segments, segments]

theorem startsWith_text (p b : AssetPath) : startsWith p.text b.text = p.startsWith b := by
  rw [Bool.eq_iff_iff, startsWith_iff, AssetPath.startsWith, List.isPrefixOf_iff_prefix,
    text_eq_empty_iff]
  constructor
  · rintro (rfl | hsame | ⟨rest, hrest⟩)
    · exact List.nil_prefix
    · obtain rfl := AssetPath.text_injective hsame
      exact List.prefix_refl _
    · have hnames := congrArg segments hrest
      rw [segments_append, AssetPath.segments_text, AssetPath.segments_text] at hnames
      obtain ⟨front, back, hsplit, hfront, -⟩ := List.map_eq_append_iff.mp hnames
      rw [hsplit, map_text_injective hfront]
      exact List.prefix_append _ _
  · rintro ⟨names, hnames⟩
    obtain rfl : p = b.append ⟨names⟩ := congrArg AssetPath.mk hnames.symm
    by_cases hb : b = .root
    · exact Or.inl hb
    by_cases hq : (⟨names⟩ : AssetPath) = .root
    · rw [hq, AssetPath.append_root]
      exact Or.inr (Or.inl rfl)
    · exact Or.inr (Or.inr ⟨_, AssetPath.text_append hb hq⟩)

/-- No slash stands in front of a path. -/
theorem dropWhile_text (p : AssetPath) :
    p.text.toList.dropWhile (· = '/') = p.text.toList := by
  obtain ⟨ps⟩ := p
  cases ps with
  | nil => rfl
  | cons n ns =>
      obtain ⟨c, cs, hcs⟩ := List.exists_cons_of_ne_nil n.toList_ne_nil
      have hc : c ≠ '/' := by
        rintro rfl
        exact n.entryName.no_slash (by rw [hcs]; exact List.mem_cons_self)
      have hfirst : ∃ rest, (AssetPath.text ⟨n :: ns⟩).toList = c :: rest := by
        rw [AssetPath.text, String.toList_ofList, List.map_cons, hcs]
        cases ns with
        | nil => exact ⟨cs, rfl⟩
        | cons m ns => exact ⟨_, rfl⟩
      obtain ⟨rest, hrest⟩ := hfirst
      rw [hrest, List.dropWhile_cons_of_neg (by simpa using hc)]

theorem strip?_text (p b : AssetPath) :
    strip? p.text b.text = (p.stripBase? b).map AssetPath.text := by
  rw [strip?, startsWith_text]
  cases hstarts : p.startsWith b with
  | false =>
      rw [if_pos rfl, AssetPath.stripBase?, hstarts]
      rfl
  | true =>
      obtain ⟨q, hq⟩ : ∃ q, p.stripBase? b = some q := by
        rw [AssetPath.stripBase?, if_pos hstarts]
        exact ⟨_, rfl⟩
      rw [if_neg (by decide), hq]
      obtain rfl := AssetPath.stripBase?_eq_some.mp hq
      by_cases hb : b = .root
      · rw [if_pos (text_eq_empty_iff.mpr hb), hb]
        rfl
      rw [if_neg (fun h => hb (text_eq_empty_iff.mp h))]
      by_cases hroot : q = .root
      · have hcut := behind?_append b.text ""
        rw [String.append_empty] at hcut
        rw [hroot, AssetPath.append_root, hcut]
        rfl
      · have hcut := behind?_append b.text ("/" ++ q.text)
        rw [← String.append_assoc] at hcut
        rw [AssetPath.text_append hb hroot, hcut]
        have hslash : ("/" ++ q.text).toList = '/' :: q.text.toList := by simp
        simp only [Option.map_some, hslash, Option.some.injEq]
        rw [List.dropWhile_cons_of_pos (by simp), dropWhile_text, String.ofList_toList]

example : strip? "éa/b" "éa" = some "b" ∧ strip? "éab" "éa" = none := by decide +kernel

end PathText

end AssetUnpack
