import AssetUnpack.Proofs.Extraction.Laid

/-!
# An extraction stays below its destination

Whatever a source answers, and however its answers change on the way, a run
into a directory without links changes nothing but what is strictly below that
directory. This is said of every moment of the run, not of its end alone: after
any number of the calls that the run makes, the disk outside is the one it
started on (`runLive_confined`). The paths in those calls are made of the
destination and of names that cannot lead anywhere else.

The induction is over the tasks of the run. It carries `Underway`, by which each
task changes one place at most, and the history so far: the disk is the one that
the calls lead to.
-/

namespace AssetUnpack.Extraction

open Disk (pathOf)

/-- A place inside a directory, at any depth. -/
def StrictlyBelow (base q : Place) : Prop := ∃ names, names ≠ [] ∧ q = base ++ names

theorem strictlyBelow_below (names : List Name) (n : Name) (base : Place) :
    StrictlyBelow base (AssetPath.below ⟨names⟩ base ++ [n.text]) :=
  ⟨names.map (·.text) ++ [n.text], Disk.place_ne_nil _ _, by
    simp only [AssetPath.below, List.append_assoc]⟩

/-- A disk that is no different from `d₀` except strictly below `base`, where a
directory still is and no link is new. -/
structure Confined (base : Place) (d₀ d : Disk) : Prop where
  outside : ∀ q, ¬ StrictlyBelow base q → d.get? q = d₀.get? q
  directory : d.get? base = some .directory
  links : ∀ q target, d.get? q = some (.link target) → d₀.get? q = some (.link target)

theorem confined_of_linkFreeAt {base : Place} {d₀ d : Disk}
    (houtside : ∀ q, ¬ StrictlyBelow base q → d.get? q = d₀.get? q) (h : d.LinkFreeAt base) :
    Confined base d₀ d := by
  refine ⟨houtside, h.directory, fun q target hq => ?_⟩
  by_cases hb : StrictlyBelow base q
  · obtain ⟨names, -, rfl⟩ := hb
    exact absurd hq (h.linkFree names target)
  · rw [← houtside q hb]
    exact hq

/-- A call that reaches strictly below `base` only: its path goes on from there
by names that stand for themselves. -/
def DiskCall.Into (base : Place) : DiskCall → Prop
  | .createFile path | .makeDirectories path =>
    ∃ names, names ≠ [] ∧ (∀ n ∈ names, EntryName n ∧ '\\' ∉ n.toList) ∧
      path = ⟨pathOf (base ++ names)⟩
  | .write place _ => StrictlyBelow base place

theorem DiskCall.About.into {names : List Name} {n : Name} {base : Place} {c : DiskCall}
    (h : c.About (AssetPath.below ⟨names⟩ base ++ [n.text])) : c.Into base := by
  have hnames : ∀ m ∈ (names ++ [n]).map (·.text), EntryName m ∧ '\\' ∉ m.toList := by
    intro m hm
    obtain ⟨a, -, rfl⟩ := List.mem_map.mp hm
    exact nameFault?_eq_none_iff.mp a.valid
  have hne : (names ++ [n]).map (·.text) ≠ [] := by simp
  rw [← AssetPath.below_snoc] at h
  cases c with
  | createFile path => exact ⟨_, hne, hnames, h⟩
  | makeDirectories path => exact ⟨_, hne, hnames, h⟩
  | write place bytes => exact ⟨_, hne, h⟩

/-- A run that stayed below its destination so far. -/
structure Inside (d₀ : Disk) (base : Place) (known : List AssetPath) (r : Run) : Prop where
  underway : Underway d₀ base known r
  history : r.disk = replay d₀ r.calls
  confined : ∀ pre, pre <+: r.calls →
    (∀ q, ¬ StrictlyBelow base q → (replay d₀ pre).get? q = d₀.get? q) ∧
      (replay d₀ pre).LinkFreeAt base
  into : ∀ c ∈ r.calls, c.Into base

section Run

variable {s : LiveSource} {config : ExtractConfig} {d₀ : Disk} {base : Place}
  {known : List AssetPath} {r : Run} {t : Task}

theorem Inside.perform (h : Inside d₀ base known r) (hw : t.Within known) :
    Inside d₀ base (t.seeTo known) (t.perform s config ⟨pathOf base⟩ r) := by
  have hunder := h.underway.perform s config hw
  cases hplace : t.place? with
  | none =>
      obtain ⟨hdisk, hcalls⟩ := Task.perform_of_none s config ⟨pathOf base⟩ hplace r
      exact ⟨hunder, by rw [hdisk, hcalls, h.history], hcalls ▸ h.confined, hcalls ▸ h.into⟩
  | some place =>
      obtain ⟨names, n, rfl, hmem⟩ := hw place hplace
      obtain ⟨cs, hasked, hcalls, hdisk⟩ := Task.asked h.underway.free s config hplace
      have hplain := h.underway.free.plain names n
      have hopens := h.underway.opens_or_barred hmem n
      refine ⟨hunder, ?_, ?_, ?_⟩
      · rw [hdisk, hcalls, replay_append, ← h.history]
      · intro pre hpre
        rw [hcalls] at hpre
        -- The moment lies before this task or in it.
        rcases List.prefix_or_prefix_of_prefix hpre (List.prefix_append r.calls cs) with
          hbefore | ⟨more, rfl⟩
        · exact h.confined pre hbefore
        have hlaid := hasked.laid hplain hopens ((List.prefix_append_right_inj _).mp hpre)
        rw [replay_append, ← h.history]
        refine ⟨fun q hq => ?_, hlaid.linkFreeAt h.underway.free n.entryName⟩
        have hother : q ≠ AssetPath.below ⟨names⟩ base ++ [n.text] := by
          rintro rfl
          exact hq (strictlyBelow_below names n base)
        have hsofar := (h.confined r.calls (List.prefix_refl _)).1 q hq
        rw [hlaid.get?_of_ne hother, h.history, hsofar]
      · intro c hc
        rw [hcalls] at hc
        rcases List.mem_append.mp hc with hc | hc
        · exact h.into c hc
        · exact (hasked.about hplain hopens c hc).into

end Run

theorem runLive_inside (s : LiveSource) (config : ExtractConfig) (dest : Destination)
    (disk : Disk) (h : disk.LinkFreeAt dest.place) :
    (runLive s config dest disk).disk = replay disk (runLive s config dest disk).calls ∧
      (∀ pre, pre <+: (runLive s config dest disk).calls →
        (∀ q, ¬ StrictlyBelow dest.place q → (replay disk pre).get? q = disk.get? q) ∧
          (replay disk pre).LinkFreeAt dest.place) ∧
      ∀ c ∈ (runLive s config dest disk).calls, c.Into dest.place := by
  match hlist : s.list { disk := disk } config.sourceRoot with
  | (.error e, events) =>
      rw [runLive_of_error hlist]
      refine ⟨rfl, fun pre hpre => ?_, fun c hc => by cases hc⟩
      rw [List.prefix_nil.mp hpre]
      exact ⟨fun q _ => rfl, h⟩
  | (.ok names, events) =>
      rw [runLive_of_list hlist]
      have hstart : Inside disk dest.place [.root] (opening config dest disk events) := by
        refine ⟨underway_opening h config dest events, rfl, fun pre hpre => ?_,
          fun c hc => by cases hc⟩
        rw [List.prefix_nil.mp hpre]
        exact ⟨fun q _ => rfl, h⟩
      obtain ⟨known, hend⟩ := performAll_ordered (P := Inside disk dest.place)
        (fun known t r hin hw => hin.perform hw) (planRun_ordered s config dest.path names _) hstart
      exact ⟨hend.history, hend.confined, hend.into⟩

/-- A run never creates, changes or removes anything that is not strictly below
its destination, never makes a link, and never removes the destination; and every
path that it creates something at is the destination followed by proper names. -/
theorem runLive_confined (s : LiveSource) (config : ExtractConfig) (dest : Destination)
    (disk : Disk) (h : disk.LinkFreeAt dest.place) :
    (runLive s config dest disk).disk = replay disk (runLive s config dest disk).calls ∧
      (∀ pre, pre <+: (runLive s config dest disk).calls →
        Confined dest.place disk (replay disk pre)) ∧
      ∀ c ∈ (runLive s config dest disk).calls, c.Into dest.place := by
  obtain ⟨hreplay, hinside, hinto⟩ := runLive_inside s config dest disk h
  refine ⟨hreplay, fun pre hpre => ?_, hinto⟩
  obtain ⟨houtside, hfree⟩ := hinside pre hpre
  exact confined_of_linkFreeAt houtside hfree

/-- A source that tries to lead a run astray, and that cannot open the same
asset twice. -/
def hostileSource : LiveSource where
  list _ path := (.ok (if path = .root then ["..", "a/b", "", "\x00", "f", "f"] else []), [])
  kind _ _ := none
  openAsset r _ := if r.calls = [] then .ok fun _ => .ofBytes [1] else .error .noEntry
  depthLimit := 1
  list_deep r path hdeep names hnames := by
    rw [if_neg (AssetPath.ne_root_of_deep hdeep)] at hnames
    exact (Except.ok.inj hnames).symm

theorem runLive_confined_hostile :
    Disk.small.LinkFreeAt ["out"] ∧
      ∀ c ∈ (runLive hostileSource {} ⟨["out"]⟩ Disk.small).calls, c.Into ["out"] :=
  ⟨Disk.linkFreeAt_small_out,
    (runLive_confined hostileSource {} ⟨["out"]⟩ Disk.small Disk.linkFreeAt_small_out).2.2⟩

end AssetUnpack.Extraction
