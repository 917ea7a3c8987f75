import AssetUnpack.Proofs.AssetPath.Mirrored
import AssetUnpack.Proofs.Extraction.Calls

/-!
# One node, one path of the host

A walk comes to every node with a path of the host in its hand: its parent's, with the
name of the node pushed onto it. The plan of a run in `Tasks.lean` has no such paths
any more, for it tells places relative to the destination. Here the walk is cut into
turns that hold the path as the walk has built it, and it is nothing but its turns
(`extractNode_eq_turns`). All that is looked up, created or written in a turn is at the
path of the turn.

From where the walk starts, the names that it has gone down and the names that it has
pushed are the same ones (`mem_visits_turnsNode`). So the path of a node can be had
without the walk, from the path of the node below the starting node; and because the
way back is open too, no two nodes of a run have one path.
-/

namespace AssetUnpack.Extraction

/-- One turn of a walk. -/
inductive Turn
  /-- There is nothing to lay out. -/
  | nothing (start : AssetPath)
  | invalidName (parent : AssetPath) (name : String) (e : InvalidPath)
  /-- A node is listed, and laid out as far as itself. -/
  | node (path : AssetPath) (dest : HostPath)
  /-- The starting node, listed before, is laid out as a leaf. -/
  | start (path : AssetPath) (dest : HostPath)

namespace Turn

/-- What a turn does to a run. -/
def perform (s : LiveSource) (config : ExtractConfig) : Turn → Run → Run
  | nothing root, r => r.note (.nothingToExtract root)
  | invalidName parent name e, r =>
    r.fail (.invalidName parent name e) (.invalidName parent name)
  | node path dest, r =>
    match s.list r path with
    | (.error e, noticed) =>
      (r.noteAll noticed).fail (.failedToList path e) (.failedToList path e)
    | (.ok [], noticed) => extractLeaf s config path dest (r.noteAll noticed)
    | (.ok (_ :: _), noticed) => ensureDirectory dest (r.noteAll noticed)
  | start path dest, r => extractLeaf s config path dest r

/-- The node of a turn and the path that the walk has for it. -/
def visit? : Turn → Option (AssetPath × HostPath)
  | node path dest | start path dest => some (path, dest)
  | _ => none

end Turn

/-- Perform turns one after the other. -/
def performTurns (s : LiveSource) (config : ExtractConfig) (turns : List Turn) (r : Run) : Run :=
  turns.foldl (fun r t => t.perform s config r) r

theorem performTurns_append {s : LiveSource} {config : ExtractConfig} (ts us : List Turn)
    (r : Run) :
    performTurns s config (ts ++ us) r =
      performTurns s config us (performTurns s config ts r) :=
  List.foldl_append

/-- The nodes that are visited in some turns, with their paths of the host. -/
def visits (turns : List Turn) : List (AssetPath × HostPath) := turns.filterMap Turn.visit?

theorem visits_append (ts us : List Turn) : visits (ts ++ us) = visits ts ++ visits us :=
  List.filterMap_append

mutual

/-- The turns of a walk that comes to a node with a path of the host, in a run that
has come as far as `r`. -/
def turnsNode (s : LiveSource) (config : ExtractConfig) (path : AssetPath) (dest : HostPath)
    (r : Run) : List Turn :=
  match h : s.list r path with
  | (.error _, _) | (.ok [], _) => [.node path dest]
  | (.ok (name :: names), _) =>
    have hd : path.depth < s.depthLimit := LiveSource.depth_lt_of_list (by rw [h])
    .node path dest ::
      turnsChildren s config path hd dest (name :: names)
        ((Turn.node path dest).perform s config r)
termination_by (s.depthLimit - path.depth, 1, 0)

/-- The turns of a walk over nodes with one parent. -/
def turnsChildren (s : LiveSource) (config : ExtractConfig) (parent : AssetPath)
    (hd : parent.depth < s.depthLimit) (dest : HostPath) (names : List String) (r : Run) :
    List Turn :=
  match names with
  | [] => []
  | name :: names =>
    let turns :=
      match Name.ofString name with
      | .ok n => turnsNode s config ⟨parent.names ++ [n]⟩ (dest.push n) r
      | .error e => [.invalidName parent name e]
    turns ++ turnsChildren s config parent hd dest names (performTurns s config turns r)
termination_by (s.depthLimit - parent.depth, 0, names.length)
decreasing_by
  · apply Prod.Lex.left
    simp only [AssetPath.depth, List.length_append, List.length_singleton] at hd ⊢
    omega
  · apply Prod.Lex.right
    apply Prod.Lex.right
    simp

end

section Equations

variable {s : LiveSource} {config : ExtractConfig} {path : AssetPath} {dest : HostPath} {r : Run}
  {events : List Event}

theorem Turn.perform_of_children {name : String} {names : List String}
    (h : s.list r path = (.ok (name :: names), events)) :
    (node path dest).perform s config r = ensureDirectory dest (r.noteAll events) := by
  rw [perform, h]

theorem turnsNode_of_childless {answer : Except IoError (List String)}
    (h : s.list r path = (answer, events)) (hnone : ∀ name names, answer ≠ .ok (name :: names)) :
    turnsNode s config path dest r = [.node path dest] := by
  rw [turnsNode.eq_def]
  split
  · rfl
  · rfl
  · next h' =>
      rw [h] at h'
      exact absurd (Prod.mk.inj h').1 (hnone _ _)

theorem turnsNode_of_children {name : String} {names : List String}
    (h : s.list r path = (.ok (name :: names), events)) :
    turnsNode s config path dest r =
      .node path dest ::
        turnsChildren s config path (LiveSource.depth_lt_of_list (by rw [h])) dest (name :: names)
          (ensureDirectory dest (r.noteAll events)) := by
  rw [← Turn.perform_of_children h, turnsNode.eq_def]
  split <;> rename_i h' <;> rw [h] at h' <;> cases h'
  rfl

theorem turnsChildren_nil (hd : path.depth < s.depthLimit) :
    turnsChildren s config path hd dest [] r = [] := by
  rw [turnsChildren.eq_def]

theorem turnsChildren_of_name (hd : path.depth < s.depthLimit) {name : String} {n : Name}
    (hn : Name.ofString name = .ok n) (names : List String) :
    turnsChildren s config path hd dest (name :: names) r =
      turnsNode s config ⟨path.names ++ [n]⟩ (dest.push n) r ++
        turnsChildren s config path hd dest names
          (performTurns s config (turnsNode s config ⟨path.names ++ [n]⟩ (dest.push n) r) r) := by
  rw [turnsChildren.eq_def]
  simp only [hn]

theorem turnsChildren_of_fault (hd : path.depth < s.depthLimit) {name : String}
    {e : InvalidPath} (hn : Name.ofString name = .error e) (names : List String) :
    turnsChildren s config path hd dest (name :: names) r =
      .invalidName path name e ::
        turnsChildren s config path hd dest names
          (r.fail (.invalidName path name e) (.invalidName path name)) := by
  rw [turnsChildren.eq_def]
  simp only [hn]
  rfl

end Equations

mutual

/-- The walk of a node is its turns. -/
theorem extractNode_eq_turns (s : LiveSource) (config : ExtractConfig) (path : AssetPath)
    (dest : HostPath) (r : Run) :
    extractNode s config path dest r =
      performTurns s config (turnsNode s config path dest r) r := by
  rw [extractNode.eq_def]
  split
  · next e events h =>
      rw [turnsNode_of_childless h (by simp), performTurns, List.foldl_cons, List.foldl_nil,
        Turn.perform, h]
  · next events h =>
      rw [turnsNode_of_childless h (by simp), performTurns, List.foldl_cons, List.foldl_nil,
        Turn.perform, h]
  · next name names events h =>
      have hd : path.depth < s.depthLimit := LiveSource.depth_lt_of_list (by rw [h])
      rw [turnsNode_of_children h, performTurns, List.foldl_cons, Turn.perform_of_children h]
      exact extractChildren_eq_turns s config path hd dest (name :: names)
        (ensureDirectory dest (r.noteAll events))
termination_by (s.depthLimit - path.depth, 1, 0)

theorem extractChildren_eq_turns (s : LiveSource) (config : ExtractConfig) (parent : AssetPath)
    (hd : parent.depth < s.depthLimit) (dest : HostPath) (names : List String) (r : Run) :
    extractChildren s config parent hd dest names r =
      performTurns s config (turnsChildren s config parent hd dest names r) r := by
  rw [extractChildren.eq_def]
  match names with
  | [] =>
      rw [turnsChildren_nil]
      rfl
  | name :: names =>
      cases hn : Name.ofString name with
      | error e =>
          rw [turnsChildren_of_fault hd hn]
          simp only [hn]
          exact extractChildren_eq_turns s config parent hd dest names _
      | ok n =>
          rw [turnsChildren_of_name hd hn, performTurns_append, ← extractNode_eq_turns]
          simp only [hn]
          exact extractChildren_eq_turns s config parent hd dest names _
termination_by (s.depthLimit - parent.depth, 0, names.length)
decreasing_by
  · apply Prod.Lex.right
    apply Prod.Lex.right
    simp
  · apply Prod.Lex.left
    simp only [AssetPath.depth, List.length_append, List.length_singleton] at hd ⊢
    omega
  · apply Prod.Lex.right
    apply Prod.Lex.right
    simp

end

/-! ## The whole run -/

/-- The turns of a run that found `names` below its starting node. -/
def turnsRun (s : LiveSource) (config : ExtractConfig) (base : HostPath) (names : List String)
    (r : Run) : List Turn :=
  match names with
  | [] =>
    match config.sourceRoot.fileName? with
    | none => [.nothing config.sourceRoot]
    | some name =>
      if s.kind r config.sourceRoot = some .directory then [.nothing config.sourceRoot]
      else [.start config.sourceRoot (base.push name)]
  | name :: names =>
    if hd : config.sourceRoot.depth < s.depthLimit then
      turnsChildren s config config.sourceRoot hd base (name :: names) r
    else []

/-- The turns of a run; none if it does not start. -/
def turns (s : LiveSource) (config : ExtractConfig) (dest : Destination) (disk : Disk) :
    List Turn :=
  match s.list { disk := disk } config.sourceRoot with
  | (.error _, _) => []
  | (.ok names, events) => turnsRun s config dest.path names (opening config dest disk events)

theorem extractRootLeaf_eq_turns (s : LiveSource) (config : ExtractConfig) (base : HostPath)
    (r : Run) :
    extractRootLeaf s config base r = performTurns s config (turnsRun s config base [] r) r := by
  rw [extractRootLeaf, turnsRun]
  cases config.sourceRoot.fileName? with
  | none => rfl
  | some name =>
      dsimp only
      split
      · rfl
      · rfl

theorem runLive_eq_turns {s : LiveSource} {config : ExtractConfig} {dest : Destination}
    {disk : Disk} {names : List String} {events : List Event}
    (h : s.list { disk := disk } config.sourceRoot = (.ok names, events)) :
    runLive s config dest disk =
      finish (performTurns s config (turns s config dest disk)
        (opening config dest disk events)) := by
  have hturns : turns s config dest disk =
      turnsRun s config dest.path names (opening config dest disk events) := by
    rw [turns, h]
  rw [hturns]
  unfold runLive
  simp only []
  split <;> rename_i h' <;> rw [h] at h' <;> cases h'
  cases names with
  | nil =>
      rw [← extractRootLeaf_eq_turns]
      rfl
  | cons name names =>
      have hd : config.sourceRoot.depth < s.depthLimit :=
        LiveSource.depth_lt_of_list (by rw [h])
      rw [turnsRun, dif_pos hd, ← extractChildren_eq_turns]
      rfl

/-! ## Where a node goes -/

section Visits

variable {p : AssetPath} {host : HostPath}

mutual

/-- What the walk has gone down since it came to a node is what it has pushed since. -/
theorem mem_visits_turnsNode (s : LiveSource) (config : ExtractConfig) (path : AssetPath)
    (dest : HostPath) (r : Run) (hmem : (p, host) ∈ visits (turnsNode s config path dest r)) :
    ∃ q, p = path.append q ∧ host = dest.under q := by
  have hhere : (p, host) = (path, dest) → ∃ q, p = path.append q ∧ host = dest.under q := by
    intro heq
    obtain ⟨rfl, rfl⟩ := Prod.mk.inj heq
    exact ⟨.root, p.append_root.symm, rfl⟩
  match hlist : s.list r path with
  | (.error e, events) | (.ok [], events) =>
      rw [turnsNode_of_childless hlist (by simp)] at hmem
      exact hhere (List.mem_singleton.mp hmem)
  | (.ok (name :: names), events) =>
      have hd : path.depth < s.depthLimit := LiveSource.depth_lt_of_list (by rw [hlist])
      rw [turnsNode_of_children hlist] at hmem
      rcases List.mem_cons.mp hmem with heq | hmem
      · exact hhere heq
      · obtain ⟨n, rest, hp, hhost⟩ :=
          mem_visits_turnsChildren s config path hd dest (name :: names) _ hmem
        exact ⟨⟨n :: rest⟩, hp, hhost⟩
termination_by (s.depthLimit - path.depth, 1, 0)

theorem mem_visits_turnsChildren (s : LiveSource) (config : ExtractConfig) (parent : AssetPath)
    (hd : parent.depth < s.depthLimit) (dest : HostPath) (names : List String) (r : Run)
    (hmem : (p, host) ∈ visits (turnsChildren s config parent hd dest names r)) :
    ∃ n rest, p = parent.append ⟨n :: rest⟩ ∧ host = dest.under ⟨n :: rest⟩ := by
  match names with
  | [] =>
      rw [turnsChildren_nil] at hmem
      cases hmem
  | name :: names =>
      cases hn : Name.ofString name with
      | error e =>
          rw [turnsChildren_of_fault hd hn] at hmem
          exact mem_visits_turnsChildren s config parent hd dest names _ hmem
      | ok n =>
          rw [turnsChildren_of_name hd hn, visits_append] at hmem
          rcases List.mem_append.mp hmem with hmem | hmem
          · obtain ⟨q, rfl, rfl⟩ := mem_visits_turnsNode s config _ (dest.push n) r hmem
            exact ⟨n, q.names, by simp [AssetPath.append], rfl⟩
          · exact mem_visits_turnsChildren s config parent hd dest names _ hmem
termination_by (s.depthLimit - parent.depth, 0, names.length)
decreasing_by
  · apply Prod.Lex.right
    apply Prod.Lex.right
    simp
  · apply Prod.Lex.left
    simp only [AssetPath.depth, List.length_append, List.length_singleton] at hd ⊢
    omega
  · apply Prod.Lex.right
    apply Prod.Lex.right
    simp

end

theorem append_ne_self {root q : AssetPath} (hq : q ≠ .root) : root.append q ≠ root := by
  intro heq
  have hsame : root.append q = root.append .root := heq.trans root.append_root.symm
  exact hq (AssetPath.append_injective hsame)

/-- Where a node goes, told by names: those of a node below the starting node are
pushed onto the base, and of a starting node without children its last name is. -/
def GoesTo (root : AssetPath) (base : HostPath) (p : AssetPath) (host : HostPath) : Prop :=
  (p = root ∧ ∃ n, root.fileName? = some n ∧ host = base.push n) ∨
    ∃ q, q ≠ .root ∧ p = root.append q ∧ host = base.under q

theorem GoesTo.unique {root : AssetPath} {base host' : HostPath} (hgoes : GoesTo root base p host)
    (hgoes' : GoesTo root base p host') : host = host' := by
  rcases hgoes with ⟨rfl, n, hn, rfl⟩ | ⟨q, hq, rfl, rfl⟩
  · rcases hgoes' with ⟨-, n', hn', rfl⟩ | ⟨q, hq, hp, -⟩
    · rw [hn] at hn'
      rw [Option.some.inj hn']
    · exact absurd hp.symm (append_ne_self hq)
  · rcases hgoes' with ⟨hp, -⟩ | ⟨q', -, hp, rfl⟩
    · exact absurd hp (append_ne_self hq)
    · rw [AssetPath.append_injective hp]

theorem mem_visits_turnsRun {s : LiveSource} {config : ExtractConfig} {base : HostPath}
    {names : List String} {r : Run} (hmem : (p, host) ∈ visits (turnsRun s config base names r)) :
    GoesTo config.sourceRoot base p host ∧ (p = config.sourceRoot ↔ names = []) := by
  unfold turnsRun at hmem
  split at hmem
  · split at hmem
    · cases hmem
    · next n hname =>
        split at hmem
        · cases hmem
        · obtain ⟨rfl, rfl⟩ := Prod.mk.inj (List.mem_singleton.mp hmem)
          exact ⟨Or.inl ⟨rfl, n, hname, rfl⟩, iff_of_true rfl rfl⟩
  · split at hmem
    · obtain ⟨n, rest, rfl, rfl⟩ := mem_visits_turnsChildren s config _ _ base _ r hmem
      have hrest : (⟨n :: rest⟩ : AssetPath) ≠ .root := fun hroot => by cases hroot
      exact ⟨Or.inr ⟨_, hrest, rfl, rfl⟩,
        iff_of_false (append_ne_self hrest) (List.cons_ne_nil _ _)⟩
    · cases hmem

theorem mem_visits_turns {s : LiveSource} {config : ExtractConfig} {dest : Destination}
    {disk : Disk} (hmem : (p, host) ∈ visits (turns s config dest disk)) :
    ∃ names events, s.list { disk := disk } config.sourceRoot = (.ok names, events) ∧
      GoesTo config.sourceRoot dest.path p host ∧ (p = config.sourceRoot ↔ names = []) := by
  unfold turns at hmem
  split at hmem
  · cases hmem
  · next names events hlist => exact ⟨names, events, hlist, mem_visits_turnsRun hmem⟩

/-- A starting node without children is the only node of its run, so it is no matter
that a node below could have its last name. -/
theorem visits_injective {s : LiveSource} {config : ExtractConfig} {dest : Destination}
    {disk : Disk} {p' : AssetPath} {host' : HostPath}
    (hmem : (p, host) ∈ visits (turns s config dest disk))
    (hmem' : (p', host') ∈ visits (turns s config dest disk))
    (hsame : host.components = host'.components) : p = p' := by
  obtain ⟨names, events, hlist, hgoes, hroot⟩ := mem_visits_turns hmem
  obtain ⟨names', events', hlist', hgoes', hroot'⟩ := mem_visits_turns hmem'
  rw [hlist, Prod.mk.injEq, Except.ok.injEq] at hlist'
  obtain ⟨rfl, -⟩ := hlist'
  rcases hgoes with ⟨hp, -⟩ | ⟨q, hq, rfl, rfl⟩
  · rw [hp, hroot'.mpr (hroot.mp hp)]
  rcases hgoes' with ⟨hp', -⟩ | ⟨q', -, rfl, rfl⟩
  · exact absurd (hroot.mpr (hroot'.mp hp')) (append_ne_self hq)
  · rw [HostPath.components_under_injective hsame]

end Visits

section Keeping

variable {α : Type} {k : PathKeeping α} {f : AssetPath → α} {mirror : HostPath → α → HostPath}

/-- The path of the host at which a node is laid out, told by what can be done with the
path of the node. -/
def Addressed (k : PathKeeping α) (mirror : HostPath → α → HostPath) (root : α) (base : HostPath)
    (p : α) (host : HostPath) : Prop :=
  (p = root ∧ (k.fileName? p).map base.pushText = some host) ∨
    (p ≠ root ∧ (k.strip? p root).map (mirror base) = some host)

theorem GoesTo.addressed {root : AssetPath} {base : HostPath} {p : AssetPath} {host : HostPath}
    (hgoes : GoesTo root base p host) (hk : k.Keeps f)
    (hmirror : ∀ base p, mirror base (f p) = base.under p) :
    Addressed k mirror (f root) base (f p) host := by
  rcases hgoes with ⟨rfl, n, hname, rfl⟩ | ⟨q, hq, rfl, rfl⟩
  · refine Or.inl ⟨rfl, ?_⟩
    rw [hk.fileName?, hname]
    exact congrArg some (base.pushText_name n)
  · refine Or.inr ⟨fun heq => append_ne_self hq (hk.injective _ _ heq), ?_⟩
    rw [hk.strip?_eq_some.mpr ⟨q, rfl, rfl⟩, Option.map_some, hmirror]

end Keeping

/-! ## What the disk is asked -/

/-- A call that is about a path of the host: it has that path, or it writes to the file
that the call before it created at the path. -/
def DiskCall.AtPath (disk : Disk) (before : List DiskCall) (host : HostPath) : DiskCall → Prop
  | .createFile path | .makeDirectories path => path = host
  | .write place _ => ∃ earlier created, before = earlier ++ [.createFile host] ∧
      (replay disk earlier).createFile host = .ok (place, created)

/-- Calls, the first on some disk, of which each is about one of some paths. -/
def AllAt (disk : Disk) (Known : HostPath → Prop) (calls : List DiskCall) : Prop :=
  ∀ before c, before ++ [c] <+: calls → ∃ host, Known host ∧ c.AtPath disk before host

theorem allAt_nil (disk : Disk) (Known : HostPath → Prop) : AllAt disk Known [] := by
  intro before c hpre
  simp at hpre

theorem AllAt.concat {disk : Disk} {Known : HostPath → Prop} {calls : List DiskCall}
    (hall : AllAt disk Known calls) {host : HostPath} (hknown : Known host) {last : DiskCall}
    (hlast : last.AtPath disk calls host) : AllAt disk Known (calls ++ [last]) := by
  intro before c hpre
  rcases List.prefix_concat_iff.mp hpre with heq | hpre
  · obtain ⟨rfl, hc⟩ := List.append_inj' heq rfl
    rw [(List.cons.inj hc).1]
    exact ⟨host, hknown, hlast⟩
  · exact hall before c hpre

/-- A run that started on a disk and made no call but about one of some paths. -/
structure KeepsTo (disk : Disk) (Known : HostPath → Prop) (r : Run) : Prop where
  history : r.disk = replay disk r.calls
  calls : AllAt disk Known r.calls

section Calls

variable {s : LiveSource} {config : ExtractConfig} {disk : Disk} {Known : HostPath → Prop}
  {r r' : Run}

theorem KeepsTo.advances (hk : KeepsTo disk Known r) {dest : HostPath} (hdest : Known dest)
    {force : Bool} (hadv : Advances force dest r r') : KeepsTo disk Known r' := by
  obtain ⟨cs, hasked, hcalls, hdisk⟩ := hadv
  refine ⟨by rw [hdisk, hcalls, replay_append, ← hk.history], ?_⟩
  rw [hcalls]
  cases hasked with
  | nothing =>
      rw [List.append_nil]
      exact hk.calls
  | directory => exact hk.calls.concat hdest rfl
  | refused => exact hk.calls.concat hdest rfl
  | @file place created bytes hcreate hnew =>
      rw [List.append_cons]
      have hcreated : AllAt disk Known (r.calls ++ [.createFile dest]) :=
        hk.calls.concat hdest rfl
      refine hcreated.concat hdest ⟨r.calls, created, rfl, ?_⟩
      rw [← hk.history]
      exact hcreate

theorem opening_keepsTo {dest : Destination} {events : List Event} (Known : HostPath → Prop) :
    KeepsTo disk Known (opening config dest disk events) := ⟨rfl, allAt_nil disk Known⟩

theorem Turn.perform_keepsTo (hk : KeepsTo disk Known r) (t : Turn)
    (ht : ∀ v, t.visit? = some v → Known v.2) : KeepsTo disk Known (t.perform s config r) := by
  cases t with
  | nothing | invalidName => exact ⟨hk.history, hk.calls⟩
  | start path dest => exact hk.advances (ht _ rfl) (extractLeaf_advances s config path dest r)
  | node path dest =>
      have hheard : ∀ noticed, KeepsTo disk Known (r.noteAll noticed) := fun _ =>
        ⟨hk.history, hk.calls⟩
      rw [perform]
      split
      · exact ⟨hk.history, hk.calls⟩
      · exact (hheard _).advances (ht _ rfl) (extractLeaf_advances s config path dest _)
      · exact (hheard _).advances (ht _ rfl) (ensureDirectory_advances config.force dest _)

theorem performTurns_keepsTo {turns : List Turn} (hturns : ∀ v ∈ visits turns, Known v.2)
    (hk : KeepsTo disk Known r) : KeepsTo disk Known (performTurns s config turns r) := by
  induction turns generalizing r with
  | nil => exact hk
  | cons t turns ih =>
      refine ih (fun v hv => hturns v ?_) (t.perform_keepsTo hk fun v hv => hturns v ?_)
      · obtain ⟨u, hu, huv⟩ := List.mem_filterMap.mp hv
        exact List.mem_filterMap.mpr ⟨u, List.mem_cons_of_mem _ hu, huv⟩
      · exact List.mem_filterMap.mpr ⟨t, List.mem_cons_self, hv⟩

theorem runLive_allAt (s : LiveSource) (config : ExtractConfig) (dest : Destination)
    (disk : Disk) :
    AllAt disk (fun host => ∃ p, (p, host) ∈ visits (turns s config dest disk))
      (runLive s config dest disk).calls := by
  match hlist : s.list { disk := disk } config.sourceRoot with
  | (.error e, events) =>
      rw [runLive_of_error hlist]
      exact allAt_nil disk _
  | (.ok names, events) =>
      rw [runLive_eq_turns hlist]
      exact (performTurns_keepsTo (fun v hv => ⟨v.1, hv⟩) (opening_keepsTo _)).calls

end Calls

/-- A run is its turns, and every turn is at one path of the host: at the destination with
what is left of the path of its node below the starting node, or with the last name of
the starting node if that is a leaf itself. Nothing is asked of the disk at any other
path, and no two nodes have one path, not even one with the same components. This holds
whether the paths of nodes are kept as names or as texts. Below any base, what is
mirrored has the names of its path behind the components of the base, and a path can be
had from its mirror. -/
theorem runLive_addresses (s : LiveSource) (config : ExtractConfig) (dest : Destination)
    (disk : Disk) :
    (∀ names events, s.list { disk := disk } config.sourceRoot = (.ok names, events) →
      runLive s config dest disk = finish (performTurns s config (turns s config dest disk)
        (opening config dest disk events))) ∧
    (∀ p host, (p, host) ∈ visits (turns s config dest disk) →
      Addressed AssetPath.keeping HostPath.under config.sourceRoot dest.path p host ∧
      Addressed PathText.keeping PathText.mirrorUnder config.sourceRoot.text dest.path p.text
        host) ∧
    (∀ before c, before ++ [c] <+: (runLive s config dest disk).calls →
      ∃ p host, (p, host) ∈ visits (turns s config dest disk) ∧ c.AtPath disk before host) ∧
    (∀ p host p' host', (p, host) ∈ visits (turns s config dest disk) →
      (p', host') ∈ visits (turns s config dest disk) →
      (p = p' → host = host') ∧ (host.components = host'.components → p = p')) ∧
    (∀ base p q, AssetPath.keeping.MirrorLaws HostPath.under base p q) ∧
    ∀ base p q, PathText.keeping.Obtained p → PathText.keeping.Obtained q →
      PathText.keeping.MirrorLaws PathText.mirrorUnder base p q := by
  refine ⟨fun _ _ => runLive_eq_turns, fun p host hmem => ?_, fun before c hpre => ?_,
    fun p host p' host' hmem hmem' => ⟨?_, ?_⟩, PathKeeping.names_mirrorLaws,
    fun base p q hp hq => PathKeeping.text_mirrorLaws base hp hq⟩
  · obtain ⟨-, -, -, hgoes, -⟩ := mem_visits_turns hmem
    exact ⟨hgoes.addressed PathKeeping.keeps_names fun _ _ => rfl,
      hgoes.addressed PathKeeping.keeps_text PathText.mirrorUnder_text⟩
  · obtain ⟨host, ⟨p, hmem⟩, hat⟩ := runLive_allAt s config dest disk before c hpre
    exact ⟨p, host, hmem, hat⟩
  · rintro rfl
    obtain ⟨-, -, -, hgoes, -⟩ := mem_visits_turns hmem
    obtain ⟨-, -, -, hgoes', -⟩ := mem_visits_turns hmem'
    exact hgoes.unique hgoes'
  · exact visits_injective hmem hmem'

end AssetUnpack.Extraction
