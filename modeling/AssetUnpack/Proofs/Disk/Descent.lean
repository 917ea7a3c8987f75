import AssetUnpack.Proofs.Disk.Growth
import AssetUnpack.Proofs.Disk.Lookup

/-!
# Going on from where a path leads

A path may be relative, go through links and end in a slash. Once it leads to a
directory, its text with names pushed onto it leads on from there: the walk takes
the same steps as before, follows the same links, and then has only the names left
(`find_under`). The slash at the end is a step of its own while it is the last one,
and none at all as soon as a name stands behind it.

Where no link is below that directory the names are places. What a lookup of them
answers can be told from what stands there, and where nothing stands, from whether
something that is no directory is in the way (`resolve_under`).
-/

namespace AssetUnpack

namespace Text

/-- A text that ends in a part without separators ends in that part. -/
theorem getLast?_splitOn {sep : Char} {part : List Char} (h : sep ∉ part) (hne : part ≠ [])
    (cs : List Char) : (splitOn sep (cs ++ part)).getLast? ≠ some [] := by
  induction cs with
  | nil =>
      rw [List.nil_append, splitOn_of_not_mem h]
      simpa using hne
  | cons c cs ih =>
      rw [List.cons_append, splitOn]
      cases hs : splitOn sep (cs ++ part) with
      | nil => exact absurd hs (splitOn_ne_nil _ _)
      | cons first parts =>
          rw [hs] at ih
          split
          · rw [List.getLast?_cons_of_ne_nil (by simp)]
            exact ih
          · cases parts with
            | nil => simp
            | cons next parts =>
                rw [List.getLast?_cons_of_ne_nil (by simp)] at ih ⊢
                exact ih

end Text

namespace HostPath

/-- The steps of a text, without the request at its end. -/
def walked (cs : List Char) : List String :=
  ((Text.splitOn '/' cs).filter (· ≠ [])).map String.ofList

theorem steps_cases (p : HostPath) :
    p.steps = walked p.text.toList ∨ p.steps = walked p.text.toList ++ [""] := by
  unfold steps walked
  dsimp only
  split
  · right
    simp
  · left
    rfl

theorem walked_append (cs : List Char) {part : List Char} (h : '/' ∉ part) (hne : part ≠ []) :
    walked (cs ++ '/' :: part) = walked cs ++ [String.ofList part] := by
  rw [walked, Text.splitOn_append, Text.splitOn_of_not_mem h]
  simp [walked, hne]

theorem walked_append_name (cs : List Char) (n : Name) :
    walked (cs ++ '/' :: n.text.toList) = walked cs ++ [n.text] := by
  rw [walked_append cs n.entryName.no_slash n.toList_ne_nil, String.ofList_toList]

/-- The path with a dot behind it, which is one more step. -/
theorem steps_dot (p : HostPath) :
    HostPath.steps ⟨p.text ++ "/."⟩ = walked p.text.toList ++ ["."] := by
  have htext : (p.text ++ "/.").toList = p.text.toList ++ '/' :: ['.'] := String.toList_append
  rw [steps, htext, if_neg]
  · exact walked_append p.text.toList (by decide) (by decide)
  · intro hend
    rw [List.append_cons] at hend
    exact Text.getLast?_splitOn (by decide) (by decide) _ hend.1

theorem walked_slash (cs : List Char) : walked (cs ++ ['/']) = walked cs := by
  rw [walked, Text.splitOn_append]
  simp [walked, Text.splitOn]

/-- Pushing a name puts it at the end of the text, behind a slash unless there is one
or nothing to divide it from. -/
theorem toList_push (p : HostPath) (n : Name) :
    (p.push n).text.toList = p.text.toList ++ n.text.toList ∧
        (p.text.toList = [] ∨ ∃ cs, p.text.toList = cs ++ ['/']) ∨
      (p.push n).text.toList = p.text.toList ++ '/' :: n.text.toList := by
  unfold push
  dsimp only
  split
  · next hend =>
      refine Or.inl ⟨String.toList_append, hend.imp_right fun hslash => ?_⟩
      exact List.getLast?_eq_some_iff.mp hslash
  · exact Or.inr (by simp)

/-- A name that is pushed onto a path is one more step, and it takes the place of the
request for a directory. -/
theorem steps_push (p : HostPath) (n : Name) :
    (p.push n).steps = walked p.text.toList ++ [n.text] := by
  have hno := n.entryName.no_slash
  have hwalked : walked (p.push n).text.toList = walked p.text.toList ++ [n.text] ∧
      ∃ cs, (p.push n).text.toList = cs ++ n.text.toList := by
    rcases p.toList_push n with ⟨htext, hnil | ⟨cs, hcs⟩⟩ | htext
    · rw [htext, hnil, List.nil_append]
      refine ⟨?_, [], rfl⟩
      simp [walked, Text.splitOn_of_not_mem hno, Text.splitOn, n.toList_ne_nil]
    · rw [htext]
      refine ⟨?_, _, rfl⟩
      rw [hcs, walked_slash, List.append_assoc]
      exact walked_append_name cs n
    · rw [htext]
      exact ⟨walked_append_name _ n, p.text.toList ++ ['/'], by simp⟩
  obtain ⟨hwalked, cs, hcs⟩ := hwalked
  rw [← hwalked, steps, if_neg]
  · rfl
  · intro hend
    rw [hcs] at hend
    exact Text.getLast?_splitOn hno n.toList_ne_nil cs hend.1

/-- What is pushed onto a path that is not empty starts where the path starts. -/
theorem isAbsolute_push_eq {p : HostPath} (h : p.text ≠ "") (n : Name) :
    (p.push n).isAbsolute = p.isAbsolute := by
  have hne : p.text.toList ≠ [] := fun hnil => h (String.toList_eq_nil_iff.mp hnil)
  obtain ⟨c, cs, hcs⟩ := List.exists_cons_of_ne_nil hne
  unfold isAbsolute
  rcases p.toList_push n with ⟨htext, -⟩ | htext <;> simp [htext, hcs]

theorem text_push_ne (p : HostPath) (n : Name) : (p.push n).text ≠ "" := by
  intro h
  have hnil := String.toList_eq_nil_iff.mpr h
  rcases p.toList_push n with ⟨htext, -⟩ | htext <;> simp [htext, n.toList_ne_nil] at hnil

theorem no_nul_push {p : HostPath} (h : '\x00' ∉ p.text.toList) (n : Name) :
    '\x00' ∉ (p.push n).text.toList := by
  have hname := n.entryName.no_nul
  rcases p.toList_push n with ⟨htext, -⟩ | htext
  · rw [htext]
    simp [h, hname]
  · rw [htext]
    simp [h, hname]

/-- A path with names pushed onto it: it starts where it started, its steps go on by the
names, and it can be asked for if it could be before and is not too long. -/
theorem under_cons (p : HostPath) (h : p.text ≠ "") (hnul : '\x00' ∉ p.text.toList) (n : Name)
    (names : List Name) :
    (p.under ⟨n :: names⟩).isAbsolute = p.isAbsolute ∧
      (p.under ⟨n :: names⟩).text ≠ "" ∧ '\x00' ∉ (p.under ⟨n :: names⟩).text.toList ∧
      (p.under ⟨n :: names⟩).steps =
        walked p.text.toList ++ n.text :: names.map (·.text) := by
  induction names generalizing p n with
  | nil => exact ⟨isAbsolute_push_eq h n, text_push_ne p n, no_nul_push hnul n, steps_push p n⟩
  | cons m names ih =>
      obtain ⟨habs, hne, hno, hsteps⟩ := ih (p.push n) (text_push_ne p n) (no_nul_push hnul n) m
      refine ⟨habs.trans (isAbsolute_push_eq h n), hne, hno, hsteps.trans ?_⟩
      have hpush := p.steps_push n
      rcases (p.push n).steps_cases with hcase | hcase
      · rw [← hcase, hpush]
        simp
      · -- A step that asks for a directory would have to be the name.
        rw [hpush] at hcase
        have hlast := congrArg List.getLast? hcase
        simp only [List.getLast?_concat, Option.some.injEq] at hlast
        exact absurd hlast n.entryName.ne_empty

end HostPath

namespace AssetPath

theorem below_nil (base : Place) : AssetPath.below ⟨[]⟩ base = base := below_root base

theorem below_cons (n : Name) (names : List Name) (base : Place) :
    AssetPath.below ⟨n :: names⟩ base = AssetPath.below ⟨names⟩ (base ++ [n.text]) := by
  simp [below]

end AssetPath

namespace Disk

variable {d : Disk} {root : Place}

/-! ## The walk -/

theorem target_ne_creation : Purpose.target ≠ .creation := by decide

theorem entry_ne_creation : Purpose.entry ≠ .creation := by decide

/-- An empty step in front of others does not show. -/
theorem walk_skip {purpose : Purpose} (hp : purpose ≠ .creation) (links : Nat) (at_ : Place)
    (c : List String) {b : List String} (hb : b ≠ []) :
    d.walk purpose links at_ (c ++ "" :: b) = d.walk purpose links at_ (c ++ b) := by
  have hwith : ∀ onLink : Place → List String → Except IoError Found,
      (∀ place c, onLink place (c ++ "" :: b) = onLink place (c ++ b)) → ∀ at_ c,
      d.walkWith purpose onLink at_ (c ++ "" :: b) = d.walkWith purpose onLink at_ (c ++ b) := by
    intro onLink hlink at_ c
    induction c generalizing at_ with
    | nil =>
        obtain ⟨step, rest, rfl⟩ := List.exists_cons_of_ne_nil hb
        rw [List.nil_append, List.nil_append, walkWith]
        cases hat : d.get? at_ with
        | none => rw [walkWith.eq_def]; simp only [hat]
        | some e =>
            cases e with
            | directory => simp
            | file number content => rw [walkWith.eq_def]; simp only [hat]
            | link target => rw [walkWith.eq_def]; simp only [hat]
            | device dev => rw [walkWith.eq_def]; simp only [hat]
    | cons step c ih =>
        have hrest : (c ++ "" :: b).isEmpty = (c ++ b).isEmpty := by
          cases c with
          | nil => simp [hb]
          | cons => rfl
        rw [List.cons_append, List.cons_append, walkWith, walkWith]
        simp only [ih, hrest, hp, false_and, if_false]
        simp only [← List.append_assoc, hlink]
  induction links generalizing at_ c with
  | zero => exact hwith _ (fun _ _ => rfl) at_ c
  | succ links ih => exact hwith _ (fun place c => ih place c) at_ c

/-- Where a walk gets to a directory, it goes on from there by the steps that are left,
whatever is looked up with them. -/
theorem walk_append {purpose : Purpose} (hp : purpose ≠ .creation) {links : Nat} {at_ : Place}
    {a : List String} (h : d.walk .target links at_ a = .ok (.entry root .directory))
    {b : List String} (hb : b ≠ []) :
    ∃ onLink, d.walk purpose links at_ (a ++ b) = d.walkWith purpose onLink root b := by
  have hwith : ∀ onLink onLink' : Place → List String → Except IoError Found,
      (∀ place a, onLink place a = .ok (.entry root .directory) →
        ∃ onLink'', onLink' place (a ++ b) = d.walkWith purpose onLink'' root b) → ∀ at_ a,
      d.walkWith .target onLink at_ a = .ok (.entry root .directory) →
      ∃ onLink'', d.walkWith purpose onLink' at_ (a ++ b) =
        d.walkWith purpose onLink'' root b := by
    intro onLink onLink' hlink at_ a h
    induction a generalizing at_ with
    | nil =>
        rw [walkWith] at h
        split at h
        · next e hat =>
            obtain ⟨rfl, -⟩ := Found.entry.inj (Except.ok.inj h)
            exact ⟨onLink', rfl⟩
        · cases h
    | cons step a ih =>
        have hmore : (a ++ b).isEmpty = false := by simp [hb]
        rw [List.cons_append, walkWith]
        rw [walkWith] at h
        simp only [hp, hmore, reduceCtorEq, Bool.false_eq_true, false_and, and_false, if_false]
          at h ⊢
        cases hat : d.get? at_ with
        | none => simp [hat] at h
        | some e =>
            cases e with
            | file number content => simp [hat] at h
            | link target => simp [hat] at h
            | device dev => simp [hat] at h
            | directory =>
                simp only [hat] at h ⊢
                split at h
                · next hstay => rw [if_pos hstay]; exact ih _ h
                next hstay =>
                rw [if_neg hstay]
                split at h
                · next hup => rw [if_pos hup]; exact ih _ h
                next hup =>
                rw [if_neg hup]
                split at h
                · cases h
                next hlong =>
                rw [if_neg hlong]
                cases hnext : d.get? (at_ ++ [step]) with
                | none =>
                    simp only [hnext] at h
                    split at h <;> cases h
                | some e =>
                    cases e with
                    | link target =>
                        simp only [hnext] at h ⊢
                        split at h
                        · cases h
                        next hempty =>
                        rw [if_neg hempty, ← List.append_assoc]
                        exact hlink _ _ h
                    | directory => simp only [hnext] at h ⊢; exact ih _ h
                    | file number content => simp only [hnext] at h ⊢; exact ih _ h
                    | device dev => simp only [hnext] at h ⊢; exact ih _ h
  induction links generalizing at_ a with
  | zero => exact hwith _ _ (fun _ _ hc => by cases hc) at_ a h
  | succ links ih => exact hwith _ _ (fun place a hplace => ih hplace) at_ a h

theorem find_of_resolve {path : HostPath} {place : Place} {e : DiskEntry}
    (h : d.resolve path = .ok (place, e)) : d.find .target path = .ok (.entry place e) := by
  rw [resolve] at h
  split at h
  · cases h
  · cases h
  · next hfind =>
      obtain ⟨hp, he⟩ := Prod.mk.inj (Except.ok.inj h)
      rw [← hp, ← he, hfind]

/-- What a path must be to lead somewhere, and the walk that leads there. -/
theorem walk_of_resolve {path : HostPath} {place : Place} {e : DiskEntry}
    (h : d.resolve path = .ok (place, e)) :
    path.text ≠ "" ∧ '\x00' ∉ path.text.toList ∧
      d.walk .target linkLimit (if path.isAbsolute then [] else d.workingDirectory) path.steps =
        .ok (.entry place e) := by
  have hfind := find_of_resolve h
  unfold find checkPath at hfind
  split at hfind
  · cases hfind
  next hne =>
  split at hfind
  · cases hfind
  next hnul =>
  split at hfind
  · cases hfind
  · exact ⟨hne, hnul, hfind⟩

/-- A path that starts where another leads to a directory, and walks on from there. -/
theorem find_on {purpose : Purpose} (hp : purpose ≠ .creation) {base path : HostPath}
    (hbase : d.resolve base = .ok (root, .directory)) (hne : path.text ≠ "")
    (hnul : '\x00' ∉ path.text.toList) (hshort : path.text.utf8ByteSize < pathLimit)
    (habs : path.isAbsolute = base.isAbsolute) {more : List String} (hmore : more ≠ [])
    (hsteps : path.steps = HostPath.walked base.text.toList ++ more) :
    ∃ onLink, d.find purpose path = d.walkWith purpose onLink root more := by
  obtain ⟨-, -, hwalk⟩ := walk_of_resolve hbase
  obtain ⟨onLink, hgoes⟩ := walk_append hp hwalk hmore
  refine ⟨onLink, ?_⟩
  have hcheck : checkPath path = .ok path := by
    unfold checkPath
    rw [if_neg hne, if_neg hnul, if_neg (Nat.not_le.mpr hshort)]
  rw [find, hcheck]
  show d.walk purpose linkLimit _ _ = _
  rw [habs, hsteps, ← hgoes]
  rcases base.steps_cases with hcase | hcase
  · rw [hcase]
  · rw [hcase, List.append_assoc, List.singleton_append]
    exact (walk_skip hp _ _ _ hmore).symm

/-- Names pushed onto a path that leads to a directory are walked from there. -/
theorem find_under {purpose : Purpose} (hp : purpose ≠ .creation) {base : HostPath}
    (hbase : d.resolve base = .ok (root, .directory)) (n : Name) (names : List Name)
    (hshort : (base.under ⟨n :: names⟩).text.utf8ByteSize < pathLimit) :
    ∃ onLink, d.find purpose (base.under ⟨n :: names⟩) =
      d.walkWith purpose onLink root (n.text :: names.map (·.text)) := by
  obtain ⟨hne, hnul, -⟩ := walk_of_resolve hbase
  obtain ⟨habs, hne', hnul', hsteps⟩ := base.under_cons hne hnul n names
  exact find_on hp hbase hne' hnul' hshort habs (List.cons_ne_nil _ _) hsteps

theorem find_under_long (purpose : Purpose) {base : HostPath}
    (hbase : d.resolve base = .ok (root, .directory)) (n : Name) (names : List Name)
    (hlong : pathLimit ≤ (base.under ⟨n :: names⟩).text.utf8ByteSize) :
    d.find purpose (base.under ⟨n :: names⟩) = .error .nameTooLong := by
  obtain ⟨hne, hnul, -⟩ := walk_of_resolve hbase
  obtain ⟨-, hne', hnul', -⟩ := base.under_cons hne hnul n names
  have hcheck : checkPath (base.under ⟨n :: names⟩) = .error .nameTooLong := by
    unfold checkPath
    rw [if_neg hne', if_neg hnul', if_pos hlong]
  rw [find, hcheck]
  rfl

/-- A name pushed onto a path that leads to a directory is looked up in that directory. If it is
the name of a link, either the link itself is found or whatever the link leads to. -/
theorem find_push {purpose : Purpose} (hp : purpose ≠ .creation) {base : HostPath}
    (hbase : d.resolve base = .ok (root, .directory)) (n : Name) :
    ∃ follow : String → Except IoError Found, d.find purpose (base.push n) =
      if pathLimit ≤ (base.push n).text.utf8ByteSize ∨ nameLimit < n.text.utf8ByteSize then
        .error .nameTooLong
      else match d.get? (root ++ [n.text]) with
        | none => .ok (.vacant root n.text)
        | some (.link target) =>
          if purpose = .entry then .ok (.entry (root ++ [n.text]) (.link target))
          else follow target
        | some e => .ok (.entry (root ++ [n.text]) e) := by
  have hname := n.entryName
  by_cases hlong : pathLimit ≤ (base.push n).text.utf8ByteSize
  · refine ⟨fun _ => .error .nameTooLong, ?_⟩
    rw [if_pos (Or.inl hlong)]
    exact find_under_long purpose hbase n [] hlong
  obtain ⟨onLink, hfind⟩ := find_under hp hbase n [] (Nat.lt_of_not_le hlong)
  have hroot : d.get? root = some .directory := find_truthful (find_of_resolve hbase)
  rw [HostPath.under, List.foldl_cons, List.foldl_nil, List.map_nil, walkWith] at hfind
  simp only [hroot] at hfind
  rw [if_neg (not_or.mpr ⟨hname.ne_here, hname.ne_empty⟩), if_neg hname.ne_above,
    if_neg (fun h => hp h.1)] at hfind
  refine ⟨fun target => if target = "" then .error .noEntry else
    onLink (if HostPath.isAbsolute ⟨target⟩ then [] else root) (HostPath.steps ⟨target⟩ ++ []),
    hfind.trans ?_⟩
  by_cases hlongName : nameLimit < n.text.utf8ByteSize
  · rw [if_pos hlongName, if_pos (Or.inr hlongName)]
  rw [if_neg hlongName, if_neg (not_or.mpr ⟨hlong, hlongName⟩)]
  cases hnext : d.get? (root ++ [n.text]) with
  | none => rfl
  | some e =>
      cases e with
      | link target => simp
      | directory | file | device => simp [walkWith, hnext]

/-- A dot behind a path that leads to a directory changes nothing but the length of the
path. -/
theorem resolve_dot {base : HostPath} (hbase : d.resolve base = .ok (root, .directory))
    (hshort : (base.text ++ "/.").utf8ByteSize < pathLimit) :
    d.resolve ⟨base.text ++ "/."⟩ = .ok (root, .directory) := by
  obtain ⟨hne, hnul, -⟩ := walk_of_resolve hbase
  have htext : (base.text ++ "/.").toList = base.text.toList ++ ['/', '.'] := String.toList_append
  have hne' : base.text ++ "/." ≠ "" := by
    intro h
    have hnil := congrArg String.toList h
    rw [htext] at hnil
    simp at hnil
  have hnul' : '\x00' ∉ (base.text ++ "/.").toList := by
    rw [htext]
    simp [hnul]
  have habs : HostPath.isAbsolute ⟨base.text ++ "/."⟩ = base.isAbsolute := by
    obtain ⟨c, cs, hcs⟩ := List.exists_cons_of_ne_nil
      fun hnil => hne (String.toList_eq_nil_iff.mp hnil)
    simp [HostPath.isAbsolute, htext, hcs]
  obtain ⟨onLink, hfind⟩ := find_on target_ne_creation hbase hne' hnul' hshort habs
    (List.cons_ne_nil "." []) base.steps_dot
  have hroot : d.get? root = some .directory := find_truthful (find_of_resolve hbase)
  rw [resolve, hfind]
  simp [walkWith, hroot]

/-! ## Down a directory without links -/

variable {at_ place : Place} {onLink : Place → List String → Except IoError Found} {n : Name}
  {names : List Name} {e : DiskEntry}

/-- One step into a directory. -/
theorem walkWith_name (hat : d.get? at_ = some .directory)
    (hlink : ∀ t, d.get? (at_ ++ [n.text]) ≠ some (.link t))
    (hshort : n.text.utf8ByteSize ≤ nameLimit) :
    d.walkWith .target onLink at_ (n.text :: names.map (·.text)) =
      match d.get? (at_ ++ [n.text]) with
      | none => if names = [] then .ok (.vacant at_ n.text) else .error .noEntry
      | some _ => d.walkWith .target onLink (at_ ++ [n.text]) (names.map (·.text)) := by
  have hname := n.entryName
  rw [walkWith]
  simp only [hat]
  rw [if_neg (not_or.mpr ⟨hname.ne_here, hname.ne_empty⟩), if_neg hname.ne_above,
    if_neg (by simp), if_neg (Nat.not_lt.mpr hshort)]
  cases hnext : d.get? (at_ ++ [n.text]) with
  | none => simp
  | some e =>
      cases e with
      | link target => exact absurd hnext (hlink target)
      | directory | file | device => rfl

/-- A place that is somewhere below is walked to. -/
theorem LinkFreeAt.walkWith_entry (h : d.LinkFreeAt at_)
    (hthere : d.get? (AssetPath.below ⟨names⟩ at_) = some e) :
    d.walkWith .target onLink at_ (names.map (·.text)) =
      .ok (.entry (AssetPath.below ⟨names⟩ at_) e) := by
  induction names generalizing at_ with
  | nil =>
      rw [AssetPath.below_nil] at hthere ⊢
      simp [walkWith, hthere]
  | cons n names ih =>
      have hshort := h.wellFormed.short hthere n.text (by simp [AssetPath.below])
      rw [List.map_cons, walkWith_name h.directory (h.linkFree _) hshort]
      rw [AssetPath.below_cons] at hthere ⊢
      cases hnext : d.get? (at_ ++ [n.text]) with
      | none => exact absurd hnext (h.wellFormed.ne_none_above hthere)
      | some e' =>
          dsimp only
          cases names with
          | nil =>
              rw [AssetPath.below_nil] at hthere ⊢
              simp [walkWith, hthere]
          | cons m names =>
              exact ih (h.of_directory (h.wellFormed.directory_above hthere (by simp))) hthere

/-- Where a walk ends that gets to something, however long the names are. -/
theorem LinkFreeAt.place_of_walkWith (h : d.LinkFreeAt at_)
    (hwalk : d.walkWith .target onLink at_ (names.map (·.text)) = .ok (.entry place e)) :
    place = AssetPath.below ⟨names⟩ at_ := by
  induction names generalizing at_ with
  | nil =>
      rw [List.map_nil, walkWith, h.directory] at hwalk
      obtain ⟨rfl, -⟩ := Found.entry.inj (Except.ok.inj hwalk)
      exact (AssetPath.below_nil _).symm
  | cons n names ih =>
      by_cases hlong : nameLimit < n.text.utf8ByteSize
      · have hname := n.entryName
        rw [List.map_cons, walkWith] at hwalk
        simp only [h.directory] at hwalk
        rw [if_neg (not_or.mpr ⟨hname.ne_here, hname.ne_empty⟩), if_neg hname.ne_above,
          if_neg (by simp), if_pos hlong] at hwalk
        cases hwalk
      rw [List.map_cons, walkWith_name h.directory (h.linkFree _) (Nat.le_of_not_lt hlong)] at hwalk
      rw [AssetPath.below_cons]
      cases hnext : d.get? (at_ ++ [n.text]) with
      | none =>
          rw [hnext] at hwalk
          dsimp only at hwalk
          split at hwalk <;> cases hwalk
      | some e' =>
          rw [hnext] at hwalk
          cases e' with
          | directory => exact ih (h.of_directory hnext) hwalk
          | link target => exact absurd hnext (h.linkFree _ target)
          | file number content | device dev =>
              -- Nothing can stand below it, so the name was the last.
              cases names with
              | nil =>
                  simp only [List.map_nil, walkWith, hnext] at hwalk
                  obtain ⟨rfl, -⟩ := Found.entry.inj (Except.ok.inj hwalk)
                  exact (AssetPath.below_nil _).symm
              | cons m names =>
                  simp only [List.map_cons, walkWith, hnext] at hwalk
                  cases hwalk

/-- Above a path something stands that is no directory. -/
def InTheWay (d : Disk) (base : Place) (q : AssetPath) : Prop :=
  ∃ above rest e, q.names = above ++ rest ∧ rest ≠ [] ∧
    d.get? (AssetPath.below ⟨above⟩ base) = some e ∧ e ≠ .directory

theorem inTheWay_cons (hat : d.get? at_ = some .directory) :
    d.InTheWay at_ ⟨n :: names⟩ ↔
      ∃ above rest e, names = above ++ rest ∧ rest ≠ [] ∧
        d.get? (AssetPath.below ⟨above⟩ (at_ ++ [n.text])) = some e ∧ e ≠ .directory := by
  constructor
  · rintro ⟨above, rest, e, hsplit, hrest, hthere, hne⟩
    cases above with
    | nil =>
        rw [AssetPath.below_nil, hat] at hthere
        exact absurd (Option.some.inj hthere).symm hne
    | cons m above =>
        obtain ⟨rfl, rfl⟩ := List.cons.inj hsplit
        exact ⟨above, rest, e, rfl, hrest, AssetPath.below_cons .. ▸ hthere, hne⟩
  · rintro ⟨above, rest, e, rfl, hrest, hthere, hne⟩
    exact ⟨n :: above, rest, e, rfl, hrest, by rwa [AssetPath.below_cons], hne⟩

/-- A walk to where nothing stands fails because of what is in the way, or else because
something is missing. -/
theorem LinkFreeAt.walkWith_missing (h : d.LinkFreeAt at_)
    (onLink : Place → List String → Except IoError Found)
    (hnone : d.get? (AssetPath.below ⟨names⟩ at_) = none)
    (hshort : ∀ n ∈ names, n.text.utf8ByteSize ≤ nameLimit) :
    (d.InTheWay at_ ⟨names⟩ ∧
        d.walkWith .target onLink at_ (names.map (·.text)) = .error .notDirectory) ∨
      (¬ d.InTheWay at_ ⟨names⟩ ∧
        (d.walkWith .target onLink at_ (names.map (·.text)) = .error .noEntry ∨
          ∃ above name, d.walkWith .target onLink at_ (names.map (·.text)) =
            .ok (.vacant above name))) := by
  induction names generalizing at_ with
  | nil =>
      rw [AssetPath.below_nil, h.directory] at hnone
      cases hnone
  | cons n names ih =>
      rw [List.map_cons, walkWith_name h.directory (h.linkFree _) (hshort n (by simp))]
      cases hnext : d.get? (at_ ++ [n.text]) with
      | none =>
          refine Or.inr ⟨?_, ?_⟩
          · rw [inTheWay_cons h.directory]
            rintro ⟨above, rest, e, -, -, hthere, -⟩
            exact h.wellFormed.ne_none_above hthere hnext
          · dsimp only
            split
            · exact Or.inr ⟨_, _, rfl⟩
            · exact Or.inl rfl
      | some e =>
          rw [AssetPath.below_cons] at hnone
          cases e with
          | directory =>
              rw [inTheWay_cons h.directory]
              exact ih (h.of_directory hnext) hnone fun m hm => hshort m (List.mem_cons_of_mem _ hm)
          | link target => exact absurd hnext (h.linkFree _ target)
          | file number content | device dev =>
              cases names with
              | nil =>
                  rw [AssetPath.below_nil, hnext] at hnone
                  cases hnone
              | cons m names =>
                  refine Or.inl ⟨⟨[n], m :: names, _, rfl, List.cons_ne_nil _ _, hnext, ?_⟩, ?_⟩
                  · exact DiskEntry.noConfusion
                  · simp only [List.map_cons, walkWith, hnext]

/-! ## What stands below a directory -/

section Resolve

variable {base : HostPath} {q : AssetPath}

/-- What stands at a place is found under the base of the place. -/
theorem resolve_under (hbase : d.resolve base = .ok (root, .directory)) (h : d.LinkFreeAt root)
    (hshort : (base.under q).text.utf8ByteSize < pathLimit)
    (hthere : d.get? (q.below root) = some e) :
    d.resolve (base.under q) = .ok (q.below root, e) := by
  obtain ⟨names⟩ := q
  cases names with
  | nil =>
      rw [AssetPath.below_nil, h.directory]
        at hthere
      obtain rfl := Option.some.inj hthere
      rw [AssetPath.below_nil]
      exact hbase
  | cons n names =>
      obtain ⟨onLink, hfind⟩ := find_under target_ne_creation hbase n names hshort
      have hwalk : d.walkWith .target onLink root (n.text :: names.map (·.text)) = _ :=
        h.walkWith_entry hthere
      rw [resolve, hfind, hwalk]

/-- What is found under a base is what stands at the place. -/
theorem get?_of_resolve_under (hbase : d.resolve base = .ok (root, .directory))
    (h : d.LinkFreeAt root) (hfound : d.resolve (base.under q) = .ok (place, e)) :
    place = q.below root ∧ d.get? (q.below root) = some e := by
  have hplace : place = q.below root := by
    obtain ⟨names⟩ := q
    cases names with
    | nil =>
        have hsame : d.resolve base = .ok (place, e) := hfound
        rw [hbase] at hsame
        obtain ⟨rfl, -⟩ := Prod.mk.inj (Except.ok.inj hsame)
        exact (AssetPath.below_root root).symm
    | cons n names =>
        have hled := find_of_resolve hfound
        by_cases hshort : (base.under ⟨n :: names⟩).text.utf8ByteSize < pathLimit
        · obtain ⟨onLink, hfind⟩ := find_under target_ne_creation hbase n names hshort
          have hwalk : d.walkWith .target onLink root ((n :: names).map (·.text)) = _ :=
            hfind.symm.trans hled
          exact h.place_of_walkWith hwalk
        · rw [find_under_long _ hbase n names (Nat.le_of_not_lt hshort)] at hled
          cases hled
  rw [← hplace]
  exact ⟨rfl, find_truthful (find_of_resolve hfound)⟩

/-- Where nothing stands, a lookup fails because of what is in the way, or else because
something is missing. -/
theorem resolve_under_missing (hbase : d.resolve base = .ok (root, .directory))
    (h : d.LinkFreeAt root) (hnames : ∀ n ∈ q.names, n.text.utf8ByteSize ≤ nameLimit)
    (hshort : (base.under q).text.utf8ByteSize < pathLimit) (hnone : d.get? (q.below root) = none) :
    (d.InTheWay root q ∧ d.resolve (base.under q) = .error .notDirectory) ∨
      (¬ d.InTheWay root q ∧ d.resolve (base.under q) = .error .noEntry) := by
  obtain ⟨names⟩ := q
  cases names with
  | nil =>
      rw [AssetPath.below_nil, h.directory] at hnone
      cases hnone
  | cons n names =>
      obtain ⟨onLink, hfind⟩ := find_under target_ne_creation hbase n names hshort
      rw [resolve, hfind]
      have hwalk := h.walkWith_missing onLink hnone hnames
      rw [List.map_cons] at hwalk
      rcases hwalk with ⟨hway, hwalk⟩ | ⟨hfree, hwalk | ⟨above, name, hwalk⟩⟩
      · exact Or.inl ⟨hway, by rw [hwalk]⟩
      · exact Or.inr ⟨hfree, by rw [hwalk]⟩
      · exact Or.inr ⟨hfree, by rw [hwalk]⟩

end Resolve

end Disk

end AssetUnpack
