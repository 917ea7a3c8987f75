import AssetUnpack.Proofs.AssetPath.Segments
import AssetUnpack.Proofs.Extraction.Accounts
import AssetUnpack.Proofs.Extraction.Listing
import AssetUnpack.Proofs.Text.Controls

/-!
# What is shown of a name that is none

A source may list texts that are no names, and both walks pass over them and tell
so: each with an event, an extraction with a warning besides. The text comes from
outside and may hold controls. The warning and the field `name` of the event show
it escaped, so none of its controls gets there. The field `error` is the message of
the fault, which has the text as it stands between its quotes, and so it has exactly
the controls that the text has.

What a walk itself notes of such a text is always founded on an answer of the source
(`Founded`), which is what a step of either walk keeps.
-/

namespace AssetUnpack

def FieldValue.controls : FieldValue → List Char
  | shown s | quoted s => Text.controls s
  | number _ | flag _ => []

/-- The fields of an event, each with the controls in its value. -/
def Event.controls (ev : Event) : List (String × List Char) :=
  ev.fields.map fun field => (field.1, field.2.controls)

/-- An event that tells of a text passed over below a path, because it is no name. -/
structure Event.PassesOver (ev : Event) (parent : AssetPath) (name : String) : Prop where
  fields : ∃ fault, nameFault? name = some fault ∧
    ev.fields = [("parent", .shown parent.text), ("name", .shown (Text.escaped name)),
      ("error", .shown ("invalid asset path '" ++ name ++ "': " ++ fault.message))]
  controls : ev.controls = [("parent", Text.controls parent.text), ("name", []),
    ("error", Text.controls name)]
  clean_iff : Text.controls parent.text = [] →
    ((∀ field ∈ ev.controls, field.2 = []) ↔ Text.controls name = [])

/-- Whether a source lists a text below a path, as far as a disk goes. -/
def Source.Lists (s : Source) (disk : Disk) (parent : AssetPath) (name : String) : Prop :=
  ∃ names, (s.list disk parent).1 = .ok names ∧ name ∈ names

namespace Extraction

/-- Whether a source lists a text below a path at any time. -/
def LiveSource.Lists (s : LiveSource) (parent : AssetPath) (name : String) : Prop :=
  ∃ r names, (s.list r parent).1 = .ok names ∧ name ∈ names

/-! ## One event, one warning -/

theorem controls_message_of_nameFault {name : String} {fault : PathFault}
    (h : nameFault? name = some fault) : Text.controls fault.message = [] := by
  have hfaults : ∀ f ∈ [PathFault.emptyName, .currentDirectory, .parentDirectory, .separator,
      .nulByte], Text.controls f.message = [] := by decide
  refine hfaults fault ?_
  unfold nameFault? at h
  repeat' split at h
  all_goals cases h
  all_goals decide

theorem passesOver_invalidName {parent : AssetPath} {name : String} {e : InvalidPath}
    (h : Name.ofString name = .error e) :
    (Event.invalidName parent name e).PassesOver parent name := by
  obtain ⟨rfl, hfault⟩ := AssetPath.ofString_eq_error h
  have hmessage : e.message = "invalid asset path '" ++ e.path ++ "': " ++ e.fault.message := rfl
  have hlead : Text.controls "invalid asset path '" = [] := by decide
  have hmiddle : Text.controls "': " = [] := by decide
  have herror : Text.controls e.message = Text.controls e.path := by
    simp only [hmessage, Text.controls_append, controls_message_of_nameFault hfault, hlead,
      hmiddle, List.nil_append, List.append_nil]
  have hcontrols : (Event.invalidName parent e.path e).controls =
      [("parent", Text.controls parent.text), ("name", []), ("error", Text.controls e.path)] := by
    simp only [Event.controls, Event.fields, FieldValue.controls, List.map_cons, List.map_nil,
      Text.controls_escaped, herror]
  refine ⟨⟨e.fault, hfault, ?_⟩, hcontrols, fun hparent => ?_⟩
  · rw [← hmessage]
    rfl
  · rw [hcontrols, hparent]
    simp

theorem controls_warning (parent : AssetPath) (name : String) :
    Text.controls (Warning.invalidName parent name).message = Text.controls parent.text := by
  have hmessage : (Warning.invalidName parent name).message =
      "invalid asset name " ++ Text.quoted name ++ " under '" ++ parent.text ++ "'" := rfl
  have hlead : Text.controls "invalid asset name " = [] := by decide
  have hmiddle : Text.controls " under '" = [] := by decide
  have hend : Text.controls "'" = [] := by decide
  simp only [hmessage, Text.controls_append, Text.controls_quoted, hlead, hmiddle, hend,
    List.nil_append, List.append_nil]

/-- What an event tells of a text that is no name, a source did list. -/
def Founded (listed : AssetPath → String → Prop) (ev : Event) : Prop :=
  ∀ parent name e, ev = .invalidName parent name e →
    listed parent name ∧ Name.ofString name = .error e

section Founded

variable {listed : AssetPath → String → Prop} {ev : Event}

theorem founded_of_message (h : ev.message ≠ "skipping invalid asset name") :
    Founded listed ev := by
  rintro parent name e rfl
  exact absurd rfl h

theorem founded_invalidName {parent : AssetPath} {name : String} {e : InvalidPath}
    (hlisted : listed parent name) (hn : Name.ofString name = .error e) :
    Founded listed (.invalidName parent name e) := by
  intro parent' name' e' h
  cases h
  exact ⟨hlisted, hn⟩

theorem Founded.passesOver (h : Founded listed ev)
    (hmessage : ev.message = "skipping invalid asset name") :
    ∃ parent name, listed parent name ∧ ev.PassesOver parent name := by
  cases ev with
  | invalidName parent name e =>
      obtain ⟨hlisted, hn⟩ := h parent name e rfl
      exact ⟨parent, name, hlisted, passesOver_invalidName hn⟩
  | _ => exact absurd hmessage (by simp only [Event.message]; decide)

end Founded

/-! ## A listing -/

section Listing

variable (s : Source) (disk : Disk)

/-- An event of the source, or one that is founded on its answers. -/
def HeardOrFounded (ev : Event) : Prop :=
  (∃ path, ev ∈ (s.list disk path).2) ∨ Founded (s.Lists disk) ev

variable {s disk} {w : Manifest.Walk}

theorem heardOrFounded_noteAll (h : ∀ ev ∈ w.events, HeardOrFounded s disk ev) {path : AssetPath}
    {answer : Except IoError (List String)} {events : List Event}
    (hlist : s.list disk path = (answer, events)) :
    ∀ ev ∈ (w.noteAll events).events, HeardOrFounded s disk ev := by
  intro ev hev
  rcases List.mem_append.mp hev with hev | hev
  · exact h ev hev
  · exact Or.inl ⟨path, by rw [hlist]; exact hev⟩

theorem heardOrFounded_fail (h : ∀ ev ∈ w.events, HeardOrFounded s disk ev) {ev' : Event}
    (hfounded : Founded (s.Lists disk) ev') :
    ∀ ev ∈ (w.fail ev').events, HeardOrFounded s disk ev := by
  intro ev hev
  rcases List.mem_append.mp hev with hev | hev
  · exact h ev hev
  · rw [List.mem_singleton.mp hev]
    exact Or.inr hfounded

mutual

theorem listNode_founded (path : AssetPath) (w : Manifest.Walk)
    (h : ∀ ev ∈ w.events, HeardOrFounded s disk ev) :
    ∀ ev ∈ (Manifest.listNode s disk path w).events, HeardOrFounded s disk ev := by
  match hlist : s.list disk path with
  | (.error e, events) =>
      rw [Manifest.listNode_of_error hlist]
      exact heardOrFounded_fail (heardOrFounded_noteAll h hlist)
        (founded_of_message (by simp only [Event.message]; decide))
  | (.ok [], events) =>
      rw [Manifest.listNode_of_leaf hlist]
      exact heardOrFounded_noteAll h hlist
  | (.ok (name :: names), events) =>
      rw [Manifest.listNode_of_children hlist]
      exact listChildren_founded path _ (name :: names) _
        (fun n hn => ⟨name :: names, by rw [hlist], hn⟩) (heardOrFounded_noteAll h hlist)
termination_by (s.depthLimit - path.depth, 1, 0)

theorem listChildren_founded (parent : AssetPath) (hd : parent.depth < s.depthLimit)
    (names : List String) (w : Manifest.Walk) (hlisted : ∀ n ∈ names, s.Lists disk parent n)
    (h : ∀ ev ∈ w.events, HeardOrFounded s disk ev) :
    ∀ ev ∈ (Manifest.listChildren s disk parent hd names w).events, HeardOrFounded s disk ev := by
  match names with
  | [] =>
      rw [Manifest.listChildren_nil]
      exact h
  | name :: names =>
      have hrest : ∀ n ∈ names, s.Lists disk parent n :=
        fun n hn => hlisted n (List.mem_cons_of_mem _ hn)
      cases hn : Name.ofString name with
      | error e =>
          rw [Manifest.listChildren_of_fault hd hn]
          exact listChildren_founded parent hd names _ hrest
            (heardOrFounded_fail h (founded_invalidName (hlisted name List.mem_cons_self) hn))
      | ok n =>
          rw [Manifest.listChildren_of_name hd hn]
          exact listChildren_founded parent hd names _ hrest (listNode_founded _ w h)
termination_by (s.depthLimit - parent.depth, 0, names.length)
decreasing_by
  · apply Prod.Lex.right
    apply Prod.Lex.right
    simp
  · apply Prod.Lex.left
    simp only [AssetPath.depth, List.length_append, List.length_singleton] at hd ⊢
    omega
  · apply Prod.Lex.right
    apply Prod.Lex.right
    simp

end

theorem ofSource_founded (s : Source) (disk : Disk) (root : AssetPath) :
    ∀ ev ∈ (Manifest.ofSource s disk root).2, HeardOrFounded s disk ev := by
  have hheard {answer : Except IoError (List String)} {events : List Event}
      (hlist : s.list disk root = (answer, events)) : ∀ ev ∈ events, HeardOrFounded s disk ev :=
    fun ev hev => Or.inl ⟨root, by rw [hlist]; exact hev⟩
  unfold Manifest.ofSource
  split
  · next e events hlist => exact hheard hlist
  · next names events hlist =>
      intro ev hev
      rcases List.mem_append.mp hev with hev | hev
      · cases names with
        | nil => exact hheard hlist ev hev
        | cons name names =>
            exact listChildren_founded root _ (name :: names) _
              (fun n hn => ⟨name :: names, by rw [hlist], hn⟩) (hheard hlist) ev hev
      · rw [List.mem_singleton.mp hev]
        exact Or.inr (founded_of_message (by simp only [Event.message]; decide))

end Listing

/-! ## An extraction -/

/-- An event that the source noticed, or one that is founded on its answers. -/
def TrueTo (s : LiveSource) (ev : Event) : Prop :=
  (∃ r path, ev ∈ (s.list r path).2) ∨ Founded s.Lists ev

/-- A task that tells nothing of a text but what the source lists. -/
def Task.TrueTo (s : LiveSource) : Task → Prop
  | noticed events => ∀ ev ∈ events, Extraction.TrueTo s ev
  | invalidName parent name e => s.Lists parent name ∧ Name.ofString name = .error e
  | _ => True

section Plan

variable {s : LiveSource} (config : ExtractConfig) (base : HostPath)

theorem trueTo_noticed {r : Run} {path : AssetPath} {answer : Except IoError (List String)}
    {events : List Event} (hlist : s.list r path = (answer, events)) :
    (Task.noticed events).TrueTo s :=
  fun ev hev => Or.inl ⟨r, path, by rw [hlist]; exact hev⟩

mutual

theorem planNode_trueTo (path place : AssetPath) (r : Run) :
    ∀ t ∈ planNode s config base path place r, t.TrueTo s := by
  match hlist : s.list r path with
  | (.error e, events) =>
      rw [planNode_of_error hlist]
      exact List.forall_mem_cons.mpr ⟨trueTo_noticed hlist, by simp [Task.TrueTo]⟩
  | (.ok [], events) =>
      rw [planNode_of_leaf hlist]
      exact List.forall_mem_cons.mpr ⟨trueTo_noticed hlist, by simp [Task.TrueTo]⟩
  | (.ok (name :: names), events) =>
      have hd : path.depth < s.depthLimit := LiveSource.depth_lt_of_list (by rw [hlist])
      have hlisted : ∀ n ∈ name :: names, s.Lists path n :=
        fun n hn => ⟨r, name :: names, by rw [hlist], hn⟩
      rw [planNode_of_children hlist]
      refine List.forall_mem_cons.mpr ⟨trueTo_noticed hlist, ?_⟩
      exact List.forall_mem_cons.mpr
        ⟨trivial, planChildren_trueTo path hd place (name :: names) hlisted _⟩
termination_by (s.depthLimit - path.depth, 1, 0)

theorem planChildren_trueTo (parent : AssetPath) (hd : parent.depth < s.depthLimit)
    (place : AssetPath) (names : List String) (hlisted : ∀ n ∈ names, s.Lists parent n) (r : Run) :
    ∀ t ∈ planChildren s config base parent hd place names r, t.TrueTo s := by
  match names with
  | [] =>
      rw [planChildren_nil]
      exact fun t ht => absurd ht List.not_mem_nil
  | name :: names =>
      have hrest : ∀ n ∈ names, s.Lists parent n :=
        fun n hn => hlisted n (List.mem_cons_of_mem _ hn)
      cases hn : Name.ofString name with
      | error e =>
          rw [planChildren_of_fault hd hn]
          exact List.forall_mem_cons.mpr ⟨⟨hlisted name List.mem_cons_self, hn⟩,
            planChildren_trueTo parent hd place names hrest _⟩
      | ok n =>
          rw [planChildren_of_name hd hn]
          intro t ht
          rcases List.mem_append.mp ht with ht | ht
          · exact planNode_trueTo _ _ r t ht
          · exact planChildren_trueTo parent hd place names hrest _ t ht
termination_by (s.depthLimit - parent.depth, 0, names.length)
decreasing_by
  · apply Prod.Lex.right
    apply Prod.Lex.right
    simp
  · apply Prod.Lex.left
    simp only [AssetPath.depth, List.length_append, List.length_singleton] at hd ⊢
    omega
  · apply Prod.Lex.right
    apply Prod.Lex.right
    simp

end

theorem planRun_trueTo {names : List String}
    (hlisted : ∀ n ∈ names, s.Lists config.sourceRoot n) (r : Run) :
    ∀ t ∈ planRun s config base names r, t.TrueTo s := by
  have hnothing : (Task.noticed [.nothingToExtract config.sourceRoot]).TrueTo s := by
    intro ev hev
    rw [List.mem_singleton.mp hev]
    exact Or.inr (founded_of_message (by simp only [Event.message]; decide))
  unfold planRun
  split
  · split
    · exact List.forall_mem_singleton.mpr hnothing
    · split
      · exact List.forall_mem_singleton.mpr hnothing
      · exact List.forall_mem_singleton.mpr trivial
  · split
    · exact planChildren_trueTo config base _ _ _ _ hlisted r
    · exact fun t ht => absurd ht List.not_mem_nil

end Plan

/-! ### What is written while a task is performed -/

/-- A run that tells nothing of a text that is no name but what the source lists. -/
structure TrueRun (s : LiveSource) (r : Run) : Prop where
  events : ∀ ev ∈ r.events, TrueTo s ev
  warnings : ∀ w ∈ r.report.warnings, w.Begins "invalid asset name " →
    ∃ parent name, s.Lists parent name ∧ nameFault? name ≠ none ∧ w = .invalidName parent name

/-- Among the warnings of a run only those about texts that are no names begin so. -/
theorem Deed.of_begins_invalid {deed : Deed} {w : Warning} (hw : deed.warning? = some w)
    (hbegins : w.Begins "invalid asset name ") :
    ∃ parent name e, deed = .invalidName parent name e ∧ w = .invalidName parent name := by
  cases deed with
  | invalidName parent name e => exact ⟨parent, name, e, rfl, (Option.some.inj hw).symm⟩
  | unlistable path e =>
      cases hw
      have hlead : (Warning.failedToList path e).lead = "failed to list '" := rfl
      exact absurd hbegins (Warning.not_begins_of_lead hlead (by decide))
  | unopened path e =>
      cases hw
      exact absurd (Or.inr hbegins) (not_ofWalk rfl (Or.inl rfl))
  | unwritten path dest e =>
      cases hw
      exact absurd (Or.inr hbegins) (not_ofWalk rfl (Or.inr (Or.inl rfl)))
  | uncreated dest e =>
      cases hw
      exact absurd (Or.inr hbegins) (not_ofWalk rfl (Or.inr (Or.inr rfl)))
  | _ => cases hw

theorem Deed.of_emitted_invalidName {deed : Deed} {parent : AssetPath} {name : String}
    {e : InvalidPath} (h : .invalidName parent name e ∈ deed.emitted) :
    deed = .invalidName parent name e := by
  cases deed with
  | invalidName parent' name' e' =>
      cases List.mem_singleton.mp h
      rfl
  | noticed | standing => cases h
  | _ => cases List.mem_singleton.mp h

section Perform

variable {s : LiveSource} {config : ExtractConfig} {base : HostPath} {r : Run}

theorem directoryDeed_ne_invalidName (dest : HostPath) (r : Run) (parent : AssetPath)
    (name : String) (e : InvalidPath) : directoryDeed dest r ≠ .invalidName parent name e := by
  unfold directoryDeed
  split
  · exact nofun
  · split <;> exact nofun

theorem Task.eq_of_deed_invalidName {t : Task} {parent : AssetPath} {name : String}
    {e : InvalidPath} (h : t.deed s config base r = .invalidName parent name e) :
    t = .invalidName parent name e := by
  cases t with
  | noticed | unlistable => cases h
  | invalidName =>
      cases h
      rfl
  | directory place => exact absurd h (directoryDeed_ne_invalidName _ _ _ _ _)
  | leaf path place =>
      exfalso
      rw [Task.deed] at h
      split at h
      · cases hempty : config.emptyDirectories with
        | skip => rw [hempty] at h; cases h
        | create => rw [hempty] at h; exact directoryDeed_ne_invalidName _ _ _ _ _ h
      · unfold leafDeed at h
        split at h
        · cases h
        · cases h
        · cases h
        · split at h <;> cases h

theorem TrueRun.perform (h : TrueRun s r) {t : Task} (ht : t.TrueTo s) :
    TrueRun s (t.perform s config base r) := by
  have hrecorded := t.perform_recorded s config base r
  constructor
  · rw [hrecorded.events, t.deed_heard]
    intro ev hev
    rcases List.mem_append.mp hev with hev | hev
    · exact h.events ev hev
    rcases List.mem_append.mp hev with hev | hev
    · cases t with
      | noticed events => exact ht ev hev
      | _ => cases hev
    · right
      rintro parent name e rfl
      rw [Task.eq_of_deed_invalidName (Deed.of_emitted_invalidName hev)] at ht
      exact ht
  · rw [hrecorded.report, Deed.book_warnings]
    intro w hw hbegins
    rcases List.mem_append.mp hw with hw | hw
    · exact h.warnings w hw hbegins
    · obtain ⟨parent, name, e, hdeed, rfl⟩ :=
        Deed.of_begins_invalid (Option.mem_toList.mp hw) hbegins
      rw [Task.eq_of_deed_invalidName hdeed] at ht
      refine ⟨parent, name, ht.1, ?_, rfl⟩
      obtain ⟨-, hfault⟩ := AssetPath.ofString_eq_error ht.2
      rw [hfault]
      exact Option.some_ne_none _

theorem TrueRun.performAll (config : ExtractConfig) (base : HostPath) {tasks : List Task}
    (htasks : ∀ t ∈ tasks, t.TrueTo s) (h : TrueRun s r) :
    TrueRun s (performAll s config base tasks r) :=
  performAll_induction (fun t ht _ hr => hr.perform (htasks t ht)) h

theorem trueRun_opening {events : List Event} (config : ExtractConfig) (dest : Destination)
    (disk : Disk) (hevents : ∀ ev ∈ events, TrueTo s ev) :
    TrueRun s (opening config dest disk events) := by
  refine ⟨fun ev hev => ?_, fun w hw => absurd hw List.not_mem_nil⟩
  rcases List.mem_append.mp hev with hev | hev
  · exact hevents ev hev
  · rw [List.mem_singleton.mp hev]
    exact Or.inr (founded_of_message (by simp only [Event.message]; decide))

theorem runLive_trueTo (s : LiveSource) (config : ExtractConfig) (dest : Destination)
    (disk : Disk) :
    (∀ ev ∈ (runLive s config dest disk).events, TrueTo s ev) ∧
      ∀ report, (runLive s config dest disk).result = .ok report →
        ∀ w ∈ report.warnings, w.Begins "invalid asset name " →
          ∃ parent name, s.Lists parent name ∧ nameFault? name ≠ none ∧
            w = .invalidName parent name := by
  match hlist : s.list { disk := disk } config.sourceRoot with
  | (.error e, events) =>
      rw [runLive_of_error hlist]
      exact ⟨trueTo_noticed hlist, fun report h => by cases h⟩
  | (.ok names, events) =>
      have hlisted : ∀ n ∈ names, s.Lists config.sourceRoot n :=
        fun n hn => ⟨_, names, by rw [hlist], hn⟩
      have hrun := TrueRun.performAll config dest.path
        (planRun_trueTo config dest.path hlisted (opening config dest disk events))
        (trueRun_opening config dest disk (trueTo_noticed hlist))
      rw [runLive_of_list hlist]
      refine ⟨fun ev hev => ?_, fun report h => ?_⟩
      · rcases List.mem_append.mp hev with hev | hev
        · exact hrun.events ev hev
        · rw [List.mem_singleton.mp hev]
          exact Or.inr (founded_of_message (by simp only [closing, Event.message]; decide))
      · cases h
        exact hrun.warnings

end Perform

/-! ## Both walks -/

/-- What an extraction or a listing tells of a text that is no name, unless its source
said it already, it tells of one that the source lists. No warning has a control but
those of the parent's path, nor have two fields of the event; the third one, the error,
has those of the text. -/
theorem invalid_names_shown (live : LiveSource) (config : ExtractConfig) (dest : Destination)
    (s : Source) (root : AssetPath) (disk : Disk) :
    let out := runLive live config dest disk
    let listing := Manifest.ofSource s disk root
    (∀ ev ∈ out.events, ev.message = "skipping invalid asset name" →
        (∃ r path, ev ∈ (live.list r path).2) ∨
          ∃ parent name, live.Lists parent name ∧ ev.PassesOver parent name) ∧
      (∀ report, out.result = .ok report →
        ∀ w ∈ report.warnings, w.Begins "invalid asset name " →
          ∃ parent name, live.Lists parent name ∧ nameFault? name ≠ none ∧
            w = .invalidName parent name ∧
            Text.controls w.message = Text.controls parent.text) ∧
      ∀ ev ∈ listing.2, ev.message = "skipping invalid asset name" →
        (∃ path, ev ∈ (s.list disk path).2) ∨
          ∃ parent name, s.Lists disk parent name ∧ ev.PassesOver parent name := by
  intro out listing
  obtain ⟨hevents, hwarnings⟩ := runLive_trueTo live config dest disk
  refine ⟨fun ev hev hmessage => ?_, fun report hreport w hw hbegins => ?_,
    fun ev hev hmessage => ?_⟩
  · rcases hevents ev hev with hheard | hfounded
    · exact Or.inl hheard
    · exact Or.inr (hfounded.passesOver hmessage)
  · obtain ⟨parent, name, hlisted, hfault, rfl⟩ := hwarnings report hreport w hw hbegins
    exact ⟨parent, name, hlisted, hfault, rfl, controls_warning parent name⟩
  · rcases ofSource_founded s disk root ev hev with hheard | hfounded
    · exact Or.inl hheard
    · exact Or.inr (hfounded.passesOver hmessage)

/-- A source with a text for a name that clears the screen of whoever prints it. -/
def clearingSource : Source where
  list _ path := (.ok (if path = .root then ["\x1b[2J/"] else []), [])
  kind _ _ := none
  openAsset _ _ _ := .error .noEntry
  depthLimit := 1
  list_deep _ path hdeep names hnames := by
    rw [if_neg (AssetPath.ne_root_of_deep hdeep)] at hnames
    exact (Except.ok.inj hnames).symm

/-- What either walk tells of that text. -/
def clearingEvent : Event := .invalidName .root "\x1b[2J/" ⟨"\x1b[2J/", .separator⟩

theorem clearingEvent_listed :
    clearingEvent ∈ (Manifest.ofSource clearingSource Disk.small .root).2 := by
  have hname : Name.ofString "\x1b[2J/" = .error ⟨"\x1b[2J/", .separator⟩ := rfl
  have hlist : clearingSource.list Disk.small .root = (.ok ["\x1b[2J/"], []) := rfl
  unfold Manifest.ofSource
  split
  · next h => cases hlist.symm.trans h
  · next h =>
      cases hlist.symm.trans h
      refine List.mem_append_left _ ?_
      simp only []
      rw [Manifest.listChildren_of_fault _ hname, Manifest.listChildren_nil]
      exact List.mem_append_right _ List.mem_cons_self

theorem clearingEvent_emitted :
    clearingEvent ∈
      (runLive (.ofSource clearingSource) {} ⟨["out"]⟩ Disk.small).events := by
  have hname : Name.ofString "\x1b[2J/" = .error ⟨"\x1b[2J/", .separator⟩ := rfl
  have hlist : (LiveSource.ofSource clearingSource).list { disk := Disk.small } .root =
      (.ok ["\x1b[2J/"], []) := rfl
  have hdeep : AssetPath.root.depth < (LiveSource.ofSource clearingSource).depthLimit :=
    Nat.zero_lt_one
  rw [runLive_of_list hlist, planRun, dif_pos hdeep, planChildren_of_fault _ hname,
    planChildren_nil]
  refine List.mem_append_left _ ?_
  exact List.mem_append_right _ List.mem_cons_self

/-- The text of that source reaches an event with its control. -/
theorem invalid_names_shown_raw :
    Text.controls AssetPath.root.text = [] ∧
      clearingEvent ∈ (Manifest.ofSource clearingSource Disk.small .root).2 ∧
      clearingEvent ∈ (runLive (.ofSource clearingSource) {} ⟨["out"]⟩ Disk.small).events ∧
      clearingEvent.message = "skipping invalid asset name" ∧
      ("error", ['\x1b']) ∈ clearingEvent.controls := by
  have hroot : Text.controls AssetPath.root.text = [] := rfl
  have herror : ("error", ['\x1b']) ∈ clearingEvent.controls := by decide
  exact ⟨hroot, clearingEvent_listed, clearingEvent_emitted, rfl, herror⟩

theorem invalid_names_shown_clearing :
    (∃ parent name, (LiveSource.ofSource clearingSource).Lists parent name ∧
        clearingEvent.PassesOver parent name) ∧
      ∃ parent name, clearingSource.Lists Disk.small parent name ∧
        clearingEvent.PassesOver parent name := by
  obtain ⟨hrun, -, hlisting⟩ := invalid_names_shown (.ofSource clearingSource) {} ⟨["out"]⟩
    clearingSource .root Disk.small
  -- The source notices nothing, so both events are the walks' own.
  constructor
  · rcases hrun clearingEvent clearingEvent_emitted rfl with ⟨r, path, h⟩ | hshown
    · cases h
    · exact hshown
  · rcases hlisting clearingEvent clearingEvent_listed rfl with ⟨path, h⟩ | hshown
    · cases h
    · exact hshown

end Extraction

end AssetUnpack
