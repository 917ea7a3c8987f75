import AssetUnpack.Proofs.AssetPath.Segments
import AssetUnpack.Proofs.Bytes
import AssetUnpack.Proofs.Source.Archives

/-!
# Names that begin where the archiver stood

An archiver that packs the directory it stands in puts `./` in front of every name.
Loading takes that off again, in a loop that goes on as long as `./` is in front and
passes over all slashes behind it. `Strips` is that loop turn by turn, and on every
text it comes to the end that `stripCurrent` gives (`strips_iff`).

What it takes off are the segments `.` in front and no other: a `.` further in stays,
and so does every `..`, and a name with one of these is refused as before
(`segments_of_strips`). So a bundle is the same source with any number of `./` in front
of any of its names (`dotted_bundles_agree`). The one thing asked of the names is that
they do not begin with a slash, which a `./` in front would hide.
-/

namespace AssetUnpack

/-! ## Segments in front -/

namespace AssetPath

theorem segments_cons_slash (cs : List Char) :
    segments (String.ofList ('/' :: cs)) = segments (String.ofList cs) := by
  simp [segments, Text.splitOn]

/-- Slashes in front make no segments. -/
theorem segments_dropWhile_slash (cs : List Char) :
    segments (String.ofList (cs.dropWhile (· = '/'))) = segments (String.ofList cs) := by
  induction cs with
  | nil => rfl
  | cons c cs ih =>
      by_cases hc : c = '/'
      · rw [List.dropWhile_cons_of_pos (by simpa using hc), ih, hc, segments_cons_slash]
      · rw [List.dropWhile_cons_of_neg (by simpa using hc)]

theorem segments_cons_dot (cs : List Char) :
    segments (String.ofList ('.' :: '/' :: cs)) = "." :: segments (String.ofList cs) := by
  simp [segments, Text.splitOn]

/-- Unless it begins with a slash, a text begins with its first segment. -/
theorem begins_with_dot {cs : List Char} (hslash : cs.head? ≠ some '/')
    (hdot : (segments (String.ofList cs)).head? = some ".") : cs = ['.'] ∨ ['.', '/'] <+: cs := by
  have hcs := Text.joinWith_splitOn '/' cs
  rw [segments, String.toList_ofList] at hdot
  cases hs : Text.splitOn '/' cs with
  | nil => exact absurd hs (Text.splitOn_ne_nil '/' cs)
  | cons part parts =>
      rw [hs] at hcs hdot
      have hpart : part ≠ [] := by
        rintro rfl
        cases parts with
        | nil => simp at hdot
        | cons next parts => exact hslash (by rw [← hcs]; rfl)
      rw [List.filter_cons_of_pos (by simpa using hpart)] at hdot
      have htext : String.ofList part = "." := Option.some.inj hdot
      obtain rfl : part = ['.'] := by rw [← String.toList_ofList (l := part), htext]; rfl
      cases parts with
      | nil => exact Or.inl hcs.symm
      | cons next parts => exact Or.inr ⟨_, hcs⟩

end AssetPath

namespace Tar

open AssetPath (segments Acceptable)

/-! ## The loop -/

/-- The loop that takes `./` off a text, from what it starts with to what it leaves. -/
inductive Strips : List Char → List Char → Prop
  | turn {rest out : List Char} (h : Strips (rest.dropWhile (· = '/')) out) :
      Strips ('.' :: '/' :: rest) out
  | bare : Strips ['.'] []
  | done {cs : List Char} (hturn : ¬ ['.', '/'] <+: cs) (hbare : cs ≠ ['.']) : Strips cs cs

theorem stripCurrent_turn (rest : List Char) :
    stripCurrent ('.' :: '/' :: rest) = stripCurrent (rest.dropWhile (· = '/')) := by
  rw [stripCurrent]

theorem stripCurrent_done {cs : List Char} (hturn : ¬ ['.', '/'] <+: cs) (hbare : cs ≠ ['.']) :
    stripCurrent cs = cs := by
  rw [stripCurrent.eq_def]
  split
  · next rest => exact absurd ⟨rest, rfl⟩ hturn
  · exact absurd rfl hbare
  · rfl

/-- The loop comes to one end on every text. -/
theorem strips_iff {cs out : List Char} : Strips cs out ↔ out = stripCurrent cs := by
  constructor
  · intro h
    induction h with
    | turn _ ih => rw [ih, stripCurrent_turn]
    | bare => rw [stripCurrent.eq_2]
    | done hturn hbare => rw [stripCurrent_done hturn hbare]
  · rintro rfl
    induction cs using stripCurrent.induct with
    | case1 rest ih =>
        rw [stripCurrent_turn]
        exact .turn ih
    | case2 =>
        rw [stripCurrent.eq_2]
        exact .bare
    | case3 cs hturn hbare =>
        have hturn' : ¬ ['.', '/'] <+: cs := by
          rintro ⟨rest, hrest⟩
          exact hturn rest hrest.symm
        rw [stripCurrent_done hturn' hbare]
        exact .done hturn' hbare

theorem head?_dropWhile_slash (cs : List Char) : (cs.dropWhile (· = '/')).head? ≠ some '/' := by
  intro h
  have hnot := List.head?_dropWhile_not (fun c : Char => decide (c = '/')) cs
  rw [h] at hnot
  exact absurd hnot (by decide)

/-- Each turn takes the first segment off, which is `.`, and at the end no such segment
is left in front. -/
theorem segments_of_strips {cs out : List Char} (h : Strips cs out)
    (hslash : cs.head? ≠ some '/') :
    segments (String.ofList out) = (segments (String.ofList cs)).dropWhile (· = ".") := by
  induction h with
  | @turn rest out _ ih =>
      rw [ih (head?_dropWhile_slash rest), AssetPath.segments_dropWhile_slash,
        AssetPath.segments_cons_dot, List.dropWhile_cons_of_pos (by decide)]
  | bare => decide +kernel
  | @done cs hturn hbare =>
      cases hsegs : segments (String.ofList cs) with
      | nil => rfl
      | cons seg segs =>
          rw [List.dropWhile_cons_of_neg]
          intro hseg
          have hdot : (segments (String.ofList cs)).head? = some "." := by
            rw [hsegs]
            exact congrArg some (of_decide_eq_true hseg)
          exact (AssetPath.begins_with_dot hslash hdot).elim hbare hturn

/-! ## Groups in front of a name -/

/-- Groups of `./`, each with so many slashes more. -/
def here (extra : List Nat) : Bytes :=
  extra.flatMap fun n => 0x2E :: 0x2F :: List.replicate n 0x2F

theorem here_ascii (extra : List Nat) : ∀ b ∈ here extra, b.toNat < 0x80 := by
  intro b hb
  obtain ⟨n, -, hb⟩ := List.mem_flatMap.mp hb
  simp only [List.mem_cons, List.mem_replicate] at hb
  rcases hb with rfl | rfl | ⟨-, rfl⟩ <;> decide

theorem dropWhile_slashes (n : Nat) {cs : List Char} (h : cs.head? ≠ some '/') :
    (List.replicate n '/' ++ cs).dropWhile (· = '/') = cs := by
  induction n with
  | zero =>
      cases cs with
      | nil => rfl
      | cons c cs => exact List.dropWhile_cons_of_neg (by simpa using h)
  | succ n ih =>
      rw [List.replicate_succ, List.cons_append, List.dropWhile_cons_of_pos (by decide), ih]

theorem stripCurrent_here (extra : List Nat) {cs : List Char} (h : cs.head? ≠ some '/') :
    stripCurrent ((here extra).map (fun b => Char.ofNat b.toNat) ++ cs) = stripCurrent cs := by
  induction extra with
  | nil => rfl
  | cons n extra ih =>
      have hgroup : (here (n :: extra)).map (fun b => Char.ofNat b.toNat) ++ cs =
          '.' :: '/' :: (List.replicate n '/' ++
            ((here extra).map (fun b => Char.ofNat b.toNat) ++ cs)) := by
        simp [here]
      have hnext : ((here extra).map (fun b => Char.ofNat b.toNat) ++ cs).head? ≠ some '/' := by
        cases extra with
        | nil => exact h
        | cons m extra => simp [here]
      rw [hgroup, stripCurrent_turn, dropWhile_slashes n hnext, ih]

/-- Two items that are the same but for groups of `./` in front of the name in the
second. -/
inductive Item.Dotted : Item → Item → Prop
  | member (m : Member) (extra : List Nat)
      (hname : ∀ name, Bytes.text? m.name = some name → name.toList.head? ≠ some '/') :
      Dotted (.member m) (.member { m with name := here extra ++ m.name })
  | broken (detail : String) : Dotted (.broken detail) (.broken detail)

section Loading

variable {scope : AssetPath} {l j : Loading}

/-- The index that loading has come to, unless it was refused. -/
def treeAfter (result : Except ArchiveFault Loading) : Option MemoryTree :=
  result.toOption.map (·.tree)

theorem loadMember_dotted (m : Member) (extra : List Nat)
    (hname : ∀ name, Bytes.text? m.name = some name → name.toList.head? ≠ some '/')
    (scope : AssetPath) (h : l.tree = j.tree) :
    treeAfter (loadMember scope l m) =
      treeAfter (loadMember scope j { m with name := here extra ++ m.name }) := by
  have hadded (name name' : String) (result result' : Except InvalidPath MemoryTree)
      (hresult : result = result') : treeAfter (.ok (l.added name result)) =
        treeAfter (.ok (j.added name' result')) := by
    subst hresult
    show some (l.added name result).tree = some (j.added name' result).tree
    rw [tree_added, tree_added, h]
  have htree : treeAfter (.ok l) = treeAfter (.ok j) := congrArg some h
  unfold loadMember
  dsimp only
  rw [Bytes.text?_append_of_ascii (here_ascii extra)]
  cases htext : Bytes.text? m.name with
  | none => exact htree
  | some name =>
      dsimp only [Option.map_some]
      cases flagKind? m.flag with
      | none => exact htree
      | some kind =>
          rw [String.toList_append, String.toList_ofList,
            stripCurrent_here extra (hname name htext)]
          cases AssetPath.parse (String.ofList (stripCurrent name.toList)) with
          | error fault => exact htree
          | ok full =>
              dsimp only
              cases full.stripBase? scope with
              | none => exact htree
              | some path =>
                  dsimp only
                  by_cases hroot : path.isRoot = true
                  · rw [if_pos hroot, if_pos hroot]
                    exact htree
                  rw [if_neg hroot, if_neg hroot]
                  cases kind with
                  | directory => exact hadded _ _ _ _ (by rw [h])
                  | file =>
                      cases m.failure? with
                      | none => exact hadded _ _ _ _ (by rw [h])
                      | some e => rfl

theorem loadItems_dotted {items items' : List Item} (h : List.Forall₂ Item.Dotted items items')
    (scope : AssetPath) (htree : l.tree = j.tree) :
    treeAfter (loadItems scope l items).1 = treeAfter (loadItems scope j items').1 := by
  induction h generalizing l j with
  | nil => exact congrArg some htree
  | cons hitem _ ih =>
      cases hitem with
      | broken detail => rfl
      | member m extra hname =>
          have hload := loadMember_dotted m extra hname scope htree
          rw [loadItems, loadItems]
          generalize loadMember scope l m = loaded at hload ⊢
          generalize loadMember scope j { m with name := here extra ++ m.name } = loaded' at hload ⊢
          cases loaded with
          | error fault =>
              cases loaded' with
              | error fault' => rfl
              | ok j' => cases hload
          | ok l' =>
              cases loaded' with
              | error fault' => cases hload
              | ok j' => exact ih (Option.some.inj hload)

theorem load_eq_ok {input : Reader} {tree : MemoryTree} :
    (load input scope).1 = .ok tree ↔
      treeAfter (loadItems scope ⟨.empty, [], 0⟩ (members {} (.start input))).1 = some tree := by
  unfold load
  generalize loadItems scope ⟨.empty, [], 0⟩ (members {} (.start input)) = loaded
  obtain ⟨result, events⟩ := loaded
  cases result with
  | error fault => exact ⟨nofun, nofun⟩
  | ok l =>
      show Except.ok l.tree = Except.ok tree ↔ some l.tree = some tree
      rw [Except.ok.injEq, Option.some.injEq]

/-- Groups in front of names make no difference to what is loaded, nor to whether the
bundle can be loaded at all. -/
theorem load_dotted {input input' : Reader}
    (h : List.Forall₂ Item.Dotted (members {} (.start input)) (members {} (.start input')))
    (scope : AssetPath) (tree : MemoryTree) :
    (load input scope).1 = .ok tree ↔ (load input' scope).1 = .ok tree := by
  rw [load_eq_ok, load_eq_ok, loadItems_dotted h scope rfl]

end Loading

theorem openTar_eq_ok {bytes : Bytes} {gzipped : Bool} {scope : String} {s : Source} :
    (Source.openTar bytes gzipped scope).1 = .ok s ↔
      ∃ root tree, AssetPath.parse scope = .ok root ∧
        (load (inputOf bytes gzipped) root).1 = .ok tree ∧ .ofMemory tree true = s := by
  unfold Source.openTar
  cases AssetPath.parse scope with
  | error fault => exact ⟨nofun, nofun⟩
  | ok root =>
      dsimp only
      generalize hload : load (inputOf bytes gzipped) root = loaded
      obtain ⟨result, events⟩ := loaded
      cases result with
      | error e =>
          refine ⟨nofun, ?_⟩
          rintro ⟨_, tree, hroot, hok, -⟩
          obtain rfl := Except.ok.inj hroot
          rw [hload] at hok
          cases hok
      | ok tree =>
          constructor
          · intro h
            exact ⟨root, tree, rfl, by rw [hload], Except.ok.inj h⟩
          · rintro ⟨_, tree', hroot, hok, rfl⟩
            obtain rfl := Except.ok.inj hroot
            rw [hload] at hok
            obtain rfl := Except.ok.inj hok
            rfl

/-- A `./` in front of a name, however often and with however many slashes, goes
unseen. The loop that takes it off comes to one end on every text; what it leaves of a
name are the segments behind each `.` in front, and these alone decide whether the name
is refused and which path it is; and a bundle with such groups in front of any names is
the same source as without them, or refused with it. -/
theorem current_directory_unseen :
    (∀ cs, ∃ out, Strips cs out ∧ out = stripCurrent cs ∧ ∀ out', Strips cs out' → out' = out) ∧
      (∀ name : String, name.toList.head? ≠ some '/' → ∀ segs, Segmented name segs →
        let stripped := String.ofList (stripCurrent name.toList)
        let left := segs.dropWhile (· = ".")
        Segmented stripped left ∧
          ((∃ p, AssetPath.parse stripped = .ok p) ↔ ∀ seg ∈ left, Acceptable seg) ∧
          ∀ p, AssetPath.parse stripped = .ok p → p.names.map (·.text) = left) ∧
      (∀ input input', List.Forall₂ Item.Dotted (members {} (.start input))
          (members {} (.start input')) →
        ∀ scope tree, (load input scope).1 = .ok tree ↔ (load input' scope).1 = .ok tree) ∧
      ∀ bytes bytes' gzipped gzipped', List.Forall₂ Item.Dotted
          (members {} (.start (inputOf bytes gzipped)))
          (members {} (.start (inputOf bytes' gzipped'))) →
        ∀ scope s, (Source.openTar bytes gzipped scope).1 = .ok s ↔
          (Source.openTar bytes' gzipped' scope).1 = .ok s := by
  refine ⟨fun cs => ⟨_, strips_iff.mpr rfl, rfl, fun out h => strips_iff.mp h⟩,
    fun name hslash segs hsegs => ?_, fun input input' h => load_dotted h,
    fun bytes bytes' gzipped gzipped' h scope s => ?_⟩
  · intro stripped left
    have hleft : segments stripped = left := by
      have hstrips := segments_of_strips (strips_iff.mpr rfl) hslash
      rw [String.ofList_toList, AssetPath.segments_of_segmented hsegs] at hstrips
      exact hstrips
    refine ⟨?_, ?_, fun p hp => ?_⟩
    · rw [← hleft]
      exact AssetPath.segmented_segments stripped
    · rw [AssetPath.exists_parse_iff, hleft]
    · rw [AssetPath.parse_eq_ok.mp hp, hleft]
  · rw [openTar_eq_ok, openTar_eq_ok]
    simp only [load_dotted h]

/-! ## A small bundle with dots -/

/-- A block that begins with a byte. -/
def smallBlock : Bytes := 7 :: List.replicate 511 0

/-- The header of `a/b` with `.///./` in front. -/
def dottedHeader : Bytes :=
  oldHeader [0x2E, 0x2F, 0x2F, 0x2F, 0x2E, 0x2F, 0x61, 0x2F, 0x62] 1
    [0x30, 0x30, 0x32, 0x35, 0x31, 0x33, 0, 0x20] 0x30

theorem current_directory_unseen_small :
    (∃ segs, Segmented "./.././a" segs ∧ segs.dropWhile (· = ".") = ["..", ".", "a"] ∧
      ¬ ∃ p, AssetPath.parse (String.ofList (stripCurrent "./.././a".toList)) = .ok p) ∧
    (Source.openTar (innerHeader ++ smallBlock) false "a").1 =
      .ok (.ofMemory (MemoryTree.treeOf ⟨[⟨"a", rfl⟩]⟩ [⟨"a/b", .file, [7]⟩]) true) ∧
    (Source.openTar (dottedHeader ++ smallBlock) false "a").1 =
      .ok (.ofMemory (MemoryTree.treeOf ⟨[⟨"a", rfl⟩]⟩ [⟨"a/b", .file, [7]⟩]) true) := by
  obtain ⟨-, hname, -, hbundle⟩ := current_directory_unseen
  have hlone (header : Bytes) (hheader : header.length = blockSize)
      (hzero : header.all (· == 0) = false) (hread : readHeader header {} 0 = .ok 1)
      (hrole : role header = .content) (hsparse : flagOf header ≠ sparseFlag) :
      members {} (.start (.ofBytes (header ++ smallBlock))) =
        [.member ⟨memberName header {}, flagOf header, smallBlock.take 1, none⟩] :=
    members_single hheader (by decide +kernel) hzero hread hrole hsparse
  have hplain := hlone innerHeader (by decide +kernel) (by decide +kernel) (by decide +kernel)
    (by decide +kernel) (by decide +kernel)
  have hdotted := hlone dottedHeader (by decide +kernel) (by decide +kernel) (by decide +kernel)
    (by decide +kernel) (by decide +kernel)
  have hname₁ : memberName innerHeader {} = [0x61, 0x2F, 0x62] := by decide +kernel
  have hname₂ : memberName dottedHeader {} = here [2, 0] ++ [0x61, 0x2F, 0x62] := by decide +kernel
  have hflag₁ : flagOf innerHeader = 0x30 := by decide +kernel
  have hflag₂ : flagOf dottedHeader = 0x30 := by decide +kernel
  rw [hname₁, hflag₁] at hplain
  rw [hname₂, hflag₂] at hdotted
  have htext : Bytes.text? [0x61, 0x2F, 0x62] = some "a/b" := by decide +kernel
  have hscope : AssetPath.parse "a" = .ok ⟨[⟨"a", rfl⟩]⟩ := rfl
  have hopen : (Source.openTar (innerHeader ++ smallBlock) false "a").1 =
      .ok (.ofMemory (MemoryTree.treeOf ⟨[⟨"a", rfl⟩]⟩ [⟨"a/b", .file, [7]⟩]) true) := by
    have hcarries : Carries ⟨[0x61, 0x2F, 0x62], 0x30, [7], none⟩ ⟨"a/b", .file, [7]⟩ :=
      ⟨htext, by decide, fun _ => ⟨rfl, rfl⟩⟩
    refine openTar_of_load hscope (load_of_entries _ hplain (.cons hcarries .nil) fun e he => ?_)
    obtain rfl := List.mem_singleton.mp he
    exact ⟨by decide, by decide, by decide⟩
  refine ⟨⟨_, AssetPath.segmented_segments _, by decide +kernel, ?_⟩, hopen, ?_⟩
  · have hunread := (hname "./.././a" (by decide) _ (AssetPath.segmented_segments _)).2.1
    rw [hunread]
    intro hall
    have hup : ".." ∈ (segments "./.././a").dropWhile (· = ".") := by decide +kernel
    exact (hall ".." hup).ne_above rfl
  · refine (hbundle _ _ false false ?_ "a" _).mp hopen
    show List.Forall₂ Item.Dotted (members {} (.start (.ofBytes (innerHeader ++ smallBlock))))
      (members {} (.start (.ofBytes (dottedHeader ++ smallBlock))))
    rw [hplain, hdotted]
    have hitem : Item.Dotted (.member ⟨[0x61, 0x2F, 0x62], 0x30, smallBlock.take 1, none⟩) _ :=
      .member _ [2, 0] fun name h => by
        obtain rfl := Option.some.inj (htext.symm.trans h)
        decide
    exact .cons hitem .nil

end Tar

end AssetUnpack
