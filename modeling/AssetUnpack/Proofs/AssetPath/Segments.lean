import AssetUnpack.Proofs.AssetPath

/-!
# What can be read as a path

A path could be kept as one text as well, and then it is put together a name at a
time, with a slash in front of every name but the first (`PathText.join`), and its
names are looked up by cutting the text at the slashes again. Reading goes through
the segments of what was given and joins them (`PathText.parse`). That comes to the
same as reading names and writing them down (`PathText.parse_eq`).

Which texts can be read is a matter of their segments, and these are not only what
some function cuts out: they are the parts that are left, without the empty ones,
of whatever texts without slashes make up the text with slashes between them
(`Segmented`).
-/

namespace AssetUnpack

/-- The segments of a text: the parts between its slashes, except the empty ones. -/
def Segmented (s : String) (segs : List String) : Prop :=
  ∃ parts : List String, parts ≠ [] ∧ (∀ part ∈ parts, '/' ∉ part.toList) ∧
    "/".intercalate parts = s ∧ parts.filter (· ≠ "") = segs

theorem Text.not_mem_of_splitOn {sep : Char} {cs part : List Char}
    (h : part ∈ splitOn sep cs) : sep ∉ part := by
  induction cs generalizing part with
  | nil =>
      rw [splitOn, List.mem_singleton] at h
      rw [h]
      exact List.not_mem_nil
  | cons c cs ih =>
      rw [splitOn] at h
      split at h
      · rcases List.mem_cons.mp h with rfl | h
        · exact List.not_mem_nil
        · exact ih h
      · next hc =>
          cases hs : splitOn sep cs with
          | nil => exact absurd hs (splitOn_ne_nil sep cs)
          | cons first parts =>
              rw [hs] at h ih
              rcases List.mem_cons.mp h with rfl | h
              · rw [List.mem_cons, not_or]
                exact ⟨fun heq => hc heq.symm, ih List.mem_cons_self⟩
              · exact ih (List.mem_cons_of_mem _ h)

namespace AssetPath

theorem text_eq_intercalate (p : AssetPath) : p.text = "/".intercalate (p.names.map (·.text)) := by
  rw [← String.toList_inj, text, String.toList_ofList, Disk.joinWith_eq_intercalate,
    String.toList_intercalate, List.map_map]
  rfl

theorem segmented_segments (s : String) : Segmented s (segments s) := by
  refine ⟨(Text.splitOn '/' s.toList).map String.ofList, ?_, fun part hpart => ?_, ?_, ?_⟩
  · simpa using Text.splitOn_ne_nil '/' s.toList
  · obtain ⟨cs, hcs, rfl⟩ := List.mem_map.mp hpart
    rw [String.toList_ofList]
    exact Text.not_mem_of_splitOn hcs
  · rw [← String.toList_inj, String.toList_intercalate, List.map_map]
    have hid : String.toList ∘ String.ofList = id := by
      funext cs
      exact String.toList_ofList
    rw [hid, List.map_id]
    show ['/'].intercalate _ = _
    rw [← Disk.joinWith_eq_intercalate, Text.joinWith_splitOn]
  · rw [List.filter_map, segments]
    congr 1
    refine List.filter_congr fun cs _ => ?_
    simp

theorem segments_of_segmented {s : String} {segs : List String} (h : Segmented s segs) :
    segments s = segs := by
  obtain ⟨parts, hne, hslash, rfl, rfl⟩ := h
  have hsplit : Text.splitOn '/' ("/".intercalate parts).toList = parts.map String.toList := by
    rw [String.toList_intercalate]
    show Text.splitOn '/' (['/'].intercalate _) = _
    rw [← Disk.joinWith_eq_intercalate]
    refine Text.splitOn_joinWith (by simpa using hne) fun part hpart => ?_
    obtain ⟨s, hs, rfl⟩ := List.mem_map.mp hpart
    exact hslash s hs
  rw [segments, hsplit, List.filter_map, List.map_map]
  have hid : String.ofList ∘ String.toList = id := by
    funext s
    exact String.ofList_toList
  rw [hid, List.map_id]
  refine List.filter_congr fun s _ => ?_
  simp

/-- A segment that can stand in a path. -/
structure Acceptable (seg : String) : Prop where
  ne_here : seg ≠ "."
  ne_above : seg ≠ ".."
  no_backslash : '\\' ∉ seg.toList
  no_nul : '\x00' ∉ seg.toList

theorem nameFault?_of_segment {s seg : String} (h : seg ∈ segments s) :
    nameFault? seg = none ↔ Acceptable seg := by
  obtain ⟨cs, hcs, rfl⟩ := List.mem_map.mp h
  obtain ⟨hpart, hne⟩ := List.mem_filter.mp hcs
  have hempty : String.ofList cs ≠ "" := by simpa using hne
  have hslash : '/' ∉ (String.ofList cs).toList := by
    rw [String.toList_ofList]
    exact Text.not_mem_of_splitOn hpart
  rw [nameFault?_eq_none_iff]
  constructor
  · intro hname
    exact ⟨hname.1.ne_here, hname.1.ne_above, hname.2, hname.1.no_nul⟩
  · intro hseg
    exact ⟨⟨hempty, hseg.ne_here, hseg.ne_above, hslash, hseg.no_nul⟩, hseg.no_backslash⟩

/-! ## Which texts are read -/

theorem mapM_ofString_ok {ss : List String} (h : ∀ s ∈ ss, nameFault? s = none) :
    ∃ names, ss.mapM Name.ofString = .ok names := by
  refine ⟨ss.pmap Name.mk h, mapM_ofString_eq_ok.mpr ?_⟩
  rw [List.map_pmap]
  exact List.pmap_eq_self.mpr fun _ _ => rfl

theorem exists_parse_iff (s : String) :
    (∃ p, parse s = .ok p) ↔ ∀ seg ∈ segments s, Acceptable seg := by
  constructor
  · intro h seg hseg
    obtain ⟨p, hp⟩ := h
    rw [← nameFault?_of_segment hseg]
    rw [← parse_eq_ok.mp hp] at hseg
    obtain ⟨n, -, rfl⟩ := List.mem_map.mp hseg
    exact n.valid
  · intro h
    obtain ⟨names, hnames⟩ :=
      mapM_ofString_ok fun seg hseg => (nameFault?_of_segment hseg).mpr (h seg hseg)
    exact ⟨⟨names⟩, by rw [parse, hnames]; rfl⟩

theorem ofString_eq_error {s : String} {e : InvalidPath} (h : Name.ofString s = .error e) :
    e.path = s ∧ nameFault? s = some e.fault := by
  unfold Name.ofString at h
  split at h
  · cases h
  · next fault hfault =>
      obtain rfl := Except.error.inj h
      exact ⟨rfl, hfault⟩

/-- What is refused is refused for the first text that is no name. -/
theorem mapM_ofString_eq_error {ss : List String} {e : InvalidPath}
    (h : ss.mapM Name.ofString = .error e) :
    ∃ before after, ss = before ++ e.path :: after ∧ (∀ s ∈ before, nameFault? s = none) ∧
      nameFault? e.path = some e.fault := by
  induction ss with
  | nil => cases h
  | cons s ss ih =>
      rw [List.mapM_cons] at h
      cases hn : Name.ofString s with
      | error e' =>
          rw [hn] at h
          obtain rfl := Except.error.inj h
          obtain ⟨hpath, hfault⟩ := ofString_eq_error hn
          exact ⟨[], ss, by rw [hpath]; rfl, nofun, by rw [hpath, hfault]⟩
      | ok n =>
          rw [hn] at h
          cases hrest : ss.mapM Name.ofString with
          | ok rest =>
              rw [hrest] at h
              cases h
          | error e' =>
              rw [hrest] at h
              obtain rfl := Except.error.inj h
              obtain ⟨before, after, hss, hbefore, hfault⟩ := ih hrest
              refine ⟨s :: before, after, by rw [hss]; rfl, fun s' hs' => ?_, hfault⟩
              rcases List.mem_cons.mp hs' with rfl | hs'
              · rw [← text_of_ofString hn]
                exact n.valid
              · exact hbefore s' hs'

end AssetPath

/-! ## Paths kept as texts -/

namespace PathText

open AssetPath (segments)

/-- The text of the path one level below, if `name` is a name. -/
def join (base name : String) : Except InvalidPath String :=
  match nameFault? name with
  | some fault => .error ⟨name, fault⟩
  | none => .ok (if base = "" then name else base ++ "/" ++ name)

/-- Read a path by joining its segments, the first onto nothing. -/
def parse (s : String) : Except InvalidPath String := (segments s).foldlM join ""

theorem text_eq_empty_iff {p : AssetPath} : p.text = "" ↔ p = .root := by
  constructor
  · intro h
    have hsegs := AssetPath.segments_text p
    rw [h] at hsegs
    obtain ⟨ps⟩ := p
    cases ps with
    | nil => rfl
    | cons n ns => cases hsegs
  · intro h
    rw [h]
    rfl

theorem text_snoc (p : AssetPath) (n : Name) : AssetPath.text ⟨p.names ++ [n]⟩ =
    if p.text = "" then n.text else p.text ++ "/" ++ n.text := by
  rw [AssetPath.text_eq_intercalate, List.map_append]
  split
  · next h =>
      rw [text_eq_empty_iff.mp h]
      exact String.intercalate_singleton
  · next h =>
      have hne : p.names.map (·.text) ≠ [] := by
        intro hnil
        refine h (text_eq_empty_iff.mpr ?_)
        show (⟨p.names⟩ : AssetPath) = .root
        rw [List.map_eq_nil_iff.mp hnil]
        rfl
      rw [List.map_cons, List.map_nil,
        String.intercalate_append_of_ne_nil hne (List.cons_ne_nil _ _),
        String.intercalate_singleton, p.text_eq_intercalate]

theorem join_text (p : AssetPath) (name : String) :
    join p.text name = (p.join name).map AssetPath.text := by
  unfold join AssetPath.join
  cases hn : Name.ofString name with
  | error e =>
      obtain ⟨rfl, hfault⟩ := AssetPath.ofString_eq_error hn
      rw [hfault]
      rfl
  | ok n =>
      obtain rfl := AssetPath.text_of_ofString hn
      rw [n.valid]
      show Except.ok _ = Except.ok (AssetPath.text ⟨p.names ++ [n]⟩)
      rw [text_snoc]

theorem foldlM_join (p : AssetPath) (ss : List String) : ss.foldlM join p.text =
    (ss.mapM Name.ofString).map fun names => AssetPath.text ⟨p.names ++ names⟩ := by
  induction ss generalizing p with
  | nil =>
      show Except.ok p.text = Except.ok (AssetPath.text ⟨p.names ++ []⟩)
      rw [List.append_nil]
  | cons s ss ih =>
      rw [List.foldlM_cons, List.mapM_cons, join_text, AssetPath.join]
      cases Name.ofString s with
      | error e => rfl
      | ok n =>
          refine (ih ⟨p.names ++ [n]⟩).trans ?_
          simp only [List.append_assoc, List.singleton_append]
          cases ss.mapM Name.ofString <;> rfl

/-- A text that was put together is the text of the path that is read. -/
theorem parse_eq (s : String) : parse s = (AssetPath.parse s).map AssetPath.text := by
  rw [parse, AssetPath.parse]
  refine (foldlM_join .root (segments s)).trans ?_
  cases (segments s).mapM Name.ofString <;> rfl

end PathText

namespace AssetPath

/-- What is read from a text with some segments. -/
structure ReadFrom (segs : List String) (p : AssetPath) : Prop where
  text : p.text = "/".intercalate segs
  names : p.names.map (·.text) = segs
  depth : p.depth = segs.length
  /-- Cutting the text of the path gives the same segments again. -/
  segments : segments p.text = segs
  again : parse p.text = .ok p

/-- Why a text with some segments is not read. -/
structure RefusedFor (segs : List String) (e : InvalidPath) : Prop where
  first : ∃ before after, segs = before ++ e.path :: after ∧ ∀ seg ∈ before, Acceptable seg
  unacceptable : ¬ Acceptable e.path
  fault : nameFault? e.path = some e.fault

theorem readFrom_of_parse {s : String} {p : AssetPath} (h : parse s = .ok p) :
    ReadFrom (segments s) p := by
  have hnames := parse_eq_ok.mp h
  refine ⟨by rw [p.text_eq_intercalate, hnames], hnames, ?_, ?_, p.parse_text⟩
  · rw [← hnames, List.length_map, depth]
  · rw [segments_text, hnames]

theorem refusedFor_of_parse {s : String} {e : InvalidPath} (h : parse s = .error e) :
    RefusedFor (segments s) e := by
  have hread : (segments s).mapM Name.ofString = .error e := by
    rw [parse] at h
    cases hm : (segments s).mapM Name.ofString with
    | error e' =>
        rw [hm] at h
        obtain rfl : e' = e := Except.error.inj h
        rfl
    | ok names =>
        rw [hm] at h
        cases h
  obtain ⟨before, after, hsegs, hbefore, hfault⟩ := mapM_ofString_eq_error hread
  have hmem : ∀ seg ∈ before, seg ∈ segments s := by
    intro seg hseg
    rw [hsegs]
    exact List.mem_append_left _ hseg
  have hpath : e.path ∈ segments s := by
    rw [hsegs]
    exact List.mem_append_right _ List.mem_cons_self
  refine ⟨⟨before, after, hsegs, fun seg hseg => ?_⟩, fun hgood => ?_, hfault⟩
  · exact (nameFault?_of_segment (hmem seg hseg)).mp (hbefore seg hseg)
  · rw [(nameFault?_of_segment hpath).mpr hgood] at hfault
    cases hfault

/-- A text is read as a path exactly if each of its segments can stand in one; the
path is those segments and nothing else, so it does not matter which of the texts
with these segments was read. Otherwise the first segment that cannot is blamed. -/
theorem parse_exact (s : String) :
    ∃ segs, (∀ segs', Segmented s segs' ↔ segs' = segs) ∧
      PathText.parse s = (parse s).map text ∧
      ((∃ p, parse s = .ok p) ↔ ∀ seg ∈ segs, Acceptable seg) ∧
      (∀ p, parse s = .ok p → ReadFrom segs p) ∧
      (∀ e, parse s = .error e → RefusedFor segs e) ∧
      ∀ s' p p', parse s = .ok p → parse s' = .ok p' →
        (p = p' ↔ Segmented s' segs) ∧ (p.text = p'.text ↔ p = p') := by
  have hsegmented : ∀ s segs, Segmented s segs ↔ segs = segments s := by
    intro s segs
    refine ⟨fun h => (segments_of_segmented h).symm, fun h => ?_⟩
    rw [h]
    exact segmented_segments s
  refine ⟨segments s, hsegmented s, PathText.parse_eq s, exists_parse_iff s,
    fun p => readFrom_of_parse, fun e => refusedFor_of_parse, fun s' p p' hp hp' => ⟨?_, ?_⟩⟩
  · rw [hsegmented, ← parse_eq_ok.mp hp, ← parse_eq_ok.mp hp']
    refine ⟨fun h => by rw [h], fun h => ?_⟩
    obtain ⟨ps⟩ := p
    obtain ⟨ps'⟩ := p'
    exact congrArg AssetPath.mk (map_text_injective h)
  · refine ⟨fun h => ?_, fun h => by rw [h]⟩
    have hread := p.parse_text
    rw [h, p'.parse_text] at hread
    exact (Except.ok.inj hread).symm

example : ((parse "/a//b/").map text).toOption = some "a/b" := by decide +kernel

end AssetPath

end AssetUnpack
