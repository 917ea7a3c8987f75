import AssetUnpack.Proofs.Disk.Paths

/-!
# A path is read back from its text

Names hold no slash and are not empty, so the text of a path falls apart into its
names again (`parse_text`). In the other direction a text that can be read holds
nothing between its slashes but names, and no backslash anywhere
(`no_backslash_of_parse`).
-/

namespace AssetUnpack.AssetPath

theorem segments_text (p : AssetPath) : segments p.text = p.names.map (·.text) := by
  obtain ⟨names⟩ := p
  have htext : segments (text ⟨names⟩) =
      ((Text.splitOn '/' (Text.joinWith '/' (names.map (·.text.toList)))).filter (· ≠ [])).map
        String.ofList := by
    rw [segments, text, String.toList_ofList]
  rw [htext]
  cases names with
  | nil => rfl
  | cons n names =>
      have hparts : Text.splitOn '/' (Text.joinWith '/' ((n :: names).map (·.text.toList))) =
          (n :: names).map (·.text.toList) := by
        refine Text.splitOn_joinWith (by simp) fun part hpart => ?_
        obtain ⟨m, -, rfl⟩ := List.mem_map.mp hpart
        exact m.entryName.no_slash
      have hfull : ((n :: names).map (·.text.toList)).filter (· ≠ []) =
          (n :: names).map (·.text.toList) := by
        refine List.filter_eq_self.mpr fun part hpart => ?_
        obtain ⟨m, -, rfl⟩ := List.mem_map.mp hpart
        simpa using m.entryName.ne_empty
      rw [hparts, hfull, List.map_map]
      exact List.map_congr_left fun m _ => String.ofList_toList

theorem mapM_ofString_text (names : List Name) :
    (names.map (·.text)).mapM Name.ofString = .ok names := by
  induction names with
  | nil => rfl
  | cons n names ih =>
      rw [List.map_cons, List.mapM_cons, n.ofString_text, ih]
      rfl

/-- The text of a path is read back as that path. -/
theorem parse_text (p : AssetPath) : parse p.text = .ok p := by
  rw [parse, segments_text, mapM_ofString_text]
  rfl

/-- What is read as a name is its text. -/
theorem text_of_ofString {s : String} {n : Name} (h : Name.ofString s = .ok n) : n.text = s := by
  unfold Name.ofString at h
  split at h
  · next hvalid =>
      obtain rfl := Except.ok.inj h
      rfl
  · cases h

/-- Texts can be read as names exactly if they are the texts of those names. -/
theorem mapM_ofString_eq_ok {ss : List String} {names : List Name} :
    ss.mapM Name.ofString = .ok names ↔ names.map (·.text) = ss := by
  refine ⟨fun h => ?_, fun h => by rw [← h, mapM_ofString_text]⟩
  induction ss generalizing names with
  | nil =>
      obtain rfl : [] = names := Except.ok.inj h
      rfl
  | cons s ss ih =>
      rw [List.mapM_cons] at h
      cases hn : Name.ofString s with
      | error e =>
          rw [hn] at h
          cases h
      | ok n =>
          rw [hn] at h
          cases hrest : ss.mapM Name.ofString with
          | error e =>
              rw [hrest] at h
              cases h
          | ok rest =>
              rw [hrest] at h
              obtain rfl : n :: rest = names := Except.ok.inj h
              rw [List.map_cons, text_of_ofString hn, ih hrest]

/-- A text is read as a path exactly if its segments are the names of that path. -/
theorem parse_eq_ok {s : String} {p : AssetPath} :
    parse s = .ok p ↔ p.names.map (·.text) = segments s := by
  rw [← mapM_ofString_eq_ok, parse]
  cases (segments s).mapM Name.ofString with
  | error e => exact ⟨nofun, nofun⟩
  | ok names =>
      obtain ⟨ps⟩ := p
      show Except.ok (AssetPath.mk names) = Except.ok ⟨ps⟩ ↔ Except.ok names = Except.ok ps
      rw [Except.ok.injEq, Except.ok.injEq, AssetPath.mk.injEq]

theorem mem_joinWith {sep c : Char} {parts : List (List Char)}
    (h : c ∈ Text.joinWith sep parts) : c = sep ∨ ∃ part ∈ parts, c ∈ part := by
  induction parts with
  | nil => cases h
  | cons part parts ih =>
      cases parts with
      | nil => exact Or.inr ⟨part, by simp, h⟩
      | cons next parts =>
          rw [Text.joinWith, List.mem_append, List.mem_cons] at h
          rcases h with h | rfl | h
          · exact Or.inr ⟨part, by simp, h⟩
          · exact Or.inl rfl
          · refine (ih h).imp_right fun hrest => ?_
            obtain ⟨part', hpart, hc⟩ := hrest
            exact ⟨part', List.mem_cons_of_mem _ hpart, hc⟩

/-- A text that spells a path holds no backslash. -/
theorem no_backslash_of_parse {s : String} {p : AssetPath} (h : parse s = .ok p) :
    '\\' ∉ s.toList := by
  intro hmem
  rw [← Text.joinWith_splitOn '/' s.toList] at hmem
  obtain ⟨part, hpart, hin⟩ := (mem_joinWith hmem).resolve_left (by decide)
  have hsegment : String.ofList part ∈ segments s :=
    List.mem_map_of_mem (List.mem_filter.mpr ⟨hpart, by simpa using List.ne_nil_of_mem hin⟩)
  rw [← parse_eq_ok.mp h] at hsegment
  obtain ⟨n, -, hn⟩ := List.mem_map.mp hsegment
  have hfree := (nameFault?_eq_none_iff.mp n.valid).2
  rw [hn, String.toList_ofList] at hfree
  exact hfree hin

end AssetUnpack.AssetPath
