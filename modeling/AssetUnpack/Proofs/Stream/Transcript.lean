import AssetUnpack.Proofs.Stream.Delivery
import AssetUnpack.Stream.Buffer

/-!
# What a copy owes to its reader and its writer

A transcript of a copy has every call with its answer. `Conducted` says that the
answers are those of the reader and the writer, so that nothing in a transcript is
made up; the rest is then a matter of the calls alone.

As long as a copy goes on, its calls are `Even`: what was delivered was written, and
nothing has failed. There are four ways to end, one call or one write loop after
that, and each of them is `Settled`: the result tells the first call that failed, and
the writer has a prefix of what was delivered, which is the whole unless a write
failed. The buffer plays no part in this, since the writer is offered nothing but
what was read last.
-/

namespace AssetUnpack.Copy

namespace Call

/-- The failure that ends a copy at a call. A read that was interrupted ends
nothing, and a write that takes nothing is a failure. -/
def failure? : Call → Option IoError
  | read (.error e) => if e.isInterrupted then none else some e
  | write _ (.failed e) => some e
  | write _ (.accepted 0) => some .nothingWritten
  | flush (some e) => some e
  | _ => none

/-- The bytes that the reader delivered. -/
def delivered : Call → Bytes
  | read (.ok piece) => piece
  | _ => []

/-- What the reader answered. -/
def reading? : Call → Option (Except IoError Bytes)
  | read answer => some answer
  | _ => none

/-- The bytes that the writer accepted. -/
def accepted : Call → Bytes
  | write offered (.accepted n) => offered.take n
  | _ => []

def IsRead : Call → Prop
  | read _ => True
  | _ => False

def IsWrite : Call → Prop
  | write .. => True
  | _ => False

def IsFlush : Call → Prop
  | flush _ => True
  | _ => False

theorem IsWrite.not_isRead {c : Call} (h : c.IsWrite) : ¬ c.IsRead := by
  cases c with
  | write offered answer => exact not_false
  | read answer | flush answer => exact h.elim

theorem IsWrite.not_isFlush {c : Call} (h : c.IsWrite) : ¬ c.IsFlush := by
  cases c with
  | write offered answer => exact not_false
  | read answer | flush answer => exact h.elim

instance (c : Call) : Decidable c.IsRead := by
  cases c <;> unfold IsRead <;> infer_instance

instance (c : Call) : Decidable c.IsFlush := by
  cases c <;> unfold IsFlush <;> infer_instance

end Call

/-- All that the reader delivered in some calls. -/
def delivered (calls : List Call) : Bytes := calls.flatMap Call.delivered

/-- The answers to the reads in some calls. -/
def reads (calls : List Call) : List (Except IoError Bytes) := calls.filterMap Call.reading?

/-- All that the writer accepted in some calls. -/
def accepted (calls : List Call) : Bytes := calls.flatMap Call.accepted

/-- The calls that lead a writer from one state to another and leave of a reader
another one, each with the answer that it got. -/
inductive Conducted {σ : Type} (w : Writer σ) :
    σ → Reader → List Call → σ → Reader → Prop
  | nil (s : σ) (r : Reader) : Conducted w s r [] s r
  | read {s s' : σ} {r rest r' : Reader} {answer : Except IoError Bytes} {calls : List Call}
      (h : Reader.read bufferSize r = (answer, rest)) (more : Conducted w s rest calls s' r') :
      Conducted w s r (.read answer :: calls) s' r'
  | write {s next s' : σ} {r r' : Reader} {offered : Bytes} {answer : WriteAnswer}
      {calls : List Call} (h : w.write s offered = (answer, next))
      (more : Conducted w next r calls s' r') :
      Conducted w s r (.write offered answer :: calls) s' r'
  | flush {s next s' : σ} {r r' : Reader} {answer : Option IoError} {calls : List Call}
      (h : w.flush s = (answer, next)) (more : Conducted w next r calls s' r') :
      Conducted w s r (.flush answer :: calls) s' r'

theorem Conducted.append {σ : Type} {w : Writer σ} {s s' s'' : σ} {r r' r'' : Reader}
    {calls calls' : List Call} (h : Conducted w s r calls s' r')
    (h' : Conducted w s' r' calls' s'' r'') : Conducted w s r (calls ++ calls') s'' r'' := by
  induction h with
  | nil => exact h'
  | read hread _ ih => exact .read hread (ih h')
  | write hwrite _ ih => exact .write hwrite (ih h')
  | flush hflush _ ih => exact .flush hflush (ih h')

/-! ## Calls of a copy that goes on -/

/-- The calls of a copy that has neither failed nor come to the end of the file. -/
structure Even (calls : List Call) : Prop where
  balanced : accepted calls = delivered calls
  unfailed : ∀ c ∈ calls, c.failure? = none
  unended : Call.read (.ok []) ∉ calls
  unflushed : ∀ c ∈ calls, ¬ c.IsFlush

/-- The calls of a write loop: what it was given to offer, and the failure that
ended it, if any. -/
structure Offering (offered : Bytes) (e? : Option IoError) (calls : List Call) : Prop where
  writes : ∀ c ∈ calls, c.IsWrite
  failure : calls.findSome? Call.failure? = e?
  accepted_prefix : accepted calls <+: offered
  whole : e? = none → accepted calls = offered

/-- What the calls and the result of a copy that ended have to do with each
other. -/
structure Settled (calls : List Call) (result : Except IoError Nat) : Prop where
  /-- The writer gets nothing but what was delivered, once and in order. -/
  accepted_prefix : accepted calls <+: delivered calls
  /-- A copy succeeds exactly if the reader came to the end of the file and neither
  it nor a write nor the flush failed. -/
  ok_iff : (∃ total, result = .ok total) ↔
    Call.read (.ok []) ∈ calls ∧ Call.flush none ∈ calls ∧ ∀ c ∈ calls, c.failure? = none
  /-- Then all that was delivered was written, and the result is its length. -/
  ok : ∀ total, result = .ok total →
    accepted calls = delivered calls ∧ total = min (delivered calls).length totalLimit
  /-- A reader that fails does so when all it has delivered was written. -/
  broken : ∀ e, Call.read (.error e) ∈ calls → e.isInterrupted = false →
    accepted calls = delivered calls
  /-- A copy fails with the failure of the first call that failed. -/
  error_iff : ∀ e, result = .error e ↔ calls.findSome? Call.failure? = some e
  /-- The end of the file is the last thing that is read, and nothing but the flush
  comes after it. -/
  ended : Call.read (.ok []) ∈ calls → ∃ before answer,
    calls = before ++ [.read (.ok []), .flush answer] ∧ Call.read (.ok []) ∉ before
  /-- The writer is told to flush once where the file is at its end and every write
  came to its own. -/
  flushed : Call.read (.ok []) ∈ calls → (∀ c ∈ calls, c.IsWrite → c.failure? = none) →
    calls.countP (·.IsFlush) = 1
  /-- Otherwise it is never told. -/
  unflushed : ¬ (Call.read (.ok []) ∈ calls ∧ ∀ c ∈ calls, c.IsWrite → c.failure? = none) →
    calls.countP (·.IsFlush) = 0

section Calls

variable {calls more : List Call} {bytes : Bytes} {e : IoError} {total : Nat}

theorem delivered_append (calls more : List Call) :
    delivered (calls ++ more) = delivered calls ++ delivered more :=
  List.flatMap_append

theorem accepted_append (calls more : List Call) :
    accepted (calls ++ more) = accepted calls ++ accepted more :=
  List.flatMap_append

theorem delivered_writes (h : ∀ c ∈ calls, c.IsWrite) : delivered calls = [] := by
  refine List.flatMap_eq_nil_iff.mpr fun c hc => ?_
  cases c with
  | write offered answer => rfl
  | read answer | flush answer => exact (h _ hc).elim

theorem even_nil : Even [] :=
  ⟨rfl, nofun, nofun, nofun⟩

theorem Even.findSome? (h : Even calls) : calls.findSome? Call.failure? = none :=
  List.findSome?_eq_none_iff.mpr h.unfailed

theorem Even.countP (h : Even calls) : calls.countP (·.IsFlush) = 0 :=
  List.countP_eq_zero.mpr fun c hc => by simpa using h.unflushed c hc

/-- A read that was interrupted changes nothing. -/
theorem Even.interrupted (h : Even calls) (he : e.isInterrupted = true) :
    Even (calls ++ [.read (.error e)]) where
  balanced := by
    rw [accepted_append, delivered_append, h.balanced]
    rfl
  unfailed := by
    simp only [List.forall_mem_append, List.forall_mem_singleton]
    exact ⟨h.unfailed, by simp [Call.failure?, he]⟩
  unended := by simp [h.unended]
  unflushed := by
    simp only [List.forall_mem_append, List.forall_mem_singleton]
    exact ⟨h.unflushed, nofun⟩

/-- Neither does a piece that is read and written to its end. -/
theorem Even.piece (h : Even calls) (hne : bytes ≠ []) (ho : Offering bytes none more) :
    Even (calls ++ .read (.ok bytes) :: more) where
  balanced := by
    rw [accepted_append, delivered_append, h.balanced]
    show _ ++ accepted more = _ ++ (bytes ++ delivered more)
    rw [ho.whole rfl, delivered_writes ho.writes, List.append_nil]
  unfailed := by
    simp only [List.forall_mem_append, List.forall_mem_cons]
    exact ⟨h.unfailed, rfl, List.findSome?_eq_none_iff.mp ho.failure⟩
  unended := by
    simp only [List.mem_append, List.mem_cons, Call.read.injEq, Except.ok.injEq, not_or]
    exact ⟨h.unended, fun hend => hne hend.symm, fun hmem => ho.writes _ hmem⟩
  unflushed := by
    simp only [List.forall_mem_append, List.forall_mem_cons]
    exact ⟨h.unflushed, nofun, fun c hc => (ho.writes c hc).not_isFlush⟩

/-! ## The ways to end -/

/-- A copy in which a call failed. -/
theorem settled_of_failure (hfirst : calls.findSome? Call.failure? = some e)
    (hstart : accepted calls <+: delivered calls)
    (hbroken : ∀ e, Call.read (.error e) ∈ calls → e.isInterrupted = false →
      accepted calls = delivered calls)
    (hended : Call.read (.ok []) ∈ calls → ∃ before answer,
      calls = before ++ [.read (.ok []), .flush answer] ∧ Call.read (.ok []) ∉ before)
    (hflushed : Call.read (.ok []) ∈ calls → calls.countP (·.IsFlush) = 1)
    (hunflushed : Call.read (.ok []) ∈ calls ∧ (∀ c ∈ calls, c.IsWrite → c.failure? = none) ∨
      calls.countP (·.IsFlush) = 0) : Settled calls (.error e) where
  accepted_prefix := hstart
  ok_iff := by
    refine ⟨nofun, fun ⟨_, _, hnone⟩ => ?_⟩
    rw [List.findSome?_eq_none_iff.mpr hnone] at hfirst
    cases hfirst
  ok := nofun
  broken := hbroken
  error_iff e' := by
    rw [hfirst]
    exact ⟨fun h => congrArg some (Except.error.inj h), fun h => congrArg _ (Option.some.inj h)⟩
  ended := hended
  flushed hend _ := hflushed hend
  unflushed hnot := hunflushed.resolve_left hnot

theorem Even.broken (h : Even calls) (he : e.isInterrupted = false) :
    Settled (calls ++ [.read (.error e)]) (.error e) := by
  have hall : accepted (calls ++ [.read (.error e)]) = delivered (calls ++ [.read (.error e)]) := by
    rw [accepted_append, delivered_append, h.balanced]
    rfl
  have hunended : Call.read (.ok []) ∉ calls ++ [.read (.error e)] := by simp [h.unended]
  refine settled_of_failure ?_ (hall ▸ List.prefix_refl _) (fun _ _ _ => hall)
    (fun hend => absurd hend hunended) (fun hend => absurd hend hunended) (.inr ?_)
  · rw [List.findSome?_append, h.findSome?]
    simp [Call.failure?, he]
  · rw [List.countP_append, h.countP]
    rfl

/-- The end of the file, after which only the flush can fail. -/
theorem Even.end (h : Even calls) (answer : Option IoError)
    (htotal : total = min (delivered calls).length totalLimit) :
    Settled (calls ++ [.read (.ok []), .flush answer])
      (match answer with
        | none => .ok total
        | some e => .error e) := by
  have hdelivered : delivered (calls ++ [.read (.ok []), .flush answer]) = delivered calls := by
    rw [delivered_append]
    exact List.append_nil _
  have hall : accepted (calls ++ [.read (.ok []), .flush answer]) =
      delivered (calls ++ [.read (.ok []), .flush answer]) := by
    rw [hdelivered, accepted_append, h.balanced]
    exact List.append_nil _
  have hend : Call.read (.ok []) ∈ calls ++ [.read (.ok []), .flush answer] := by simp
  have hcount : (calls ++ [Call.read (.ok []), .flush answer]).countP (·.IsFlush) = 1 := by
    rw [List.countP_append, h.countP]
    rfl
  have hwrites : ∀ c ∈ calls ++ [.read (.ok []), .flush answer], c.IsWrite →
      c.failure? = none := by
    simp only [List.forall_mem_append, List.forall_mem_cons]
    exact ⟨fun c hc _ => h.unfailed c hc, nofun, nofun, nofun⟩
  cases answer with
  | some e =>
      refine settled_of_failure ?_ (hall ▸ List.prefix_refl _) (fun _ _ _ => hall)
        (fun _ => ⟨calls, some e, rfl, h.unended⟩) (fun _ => hcount) (.inl ⟨hend, hwrites⟩)
      rw [List.findSome?_append, h.findSome?]
      rfl
  | none =>
      have hnone : ∀ c ∈ calls ++ [.read (.ok []), .flush none], c.failure? = none := by
        simp only [List.forall_mem_append, List.forall_mem_cons]
        exact ⟨h.unfailed, rfl, rfl, nofun⟩
      exact {
        accepted_prefix := hall ▸ List.prefix_refl _
        ok_iff := ⟨fun _ => ⟨hend, by simp, hnone⟩, fun _ => ⟨total, rfl⟩⟩
        ok := fun n hn => by
          obtain rfl := Except.ok.inj hn
          exact ⟨hall, by rw [hdelivered, htotal]⟩
        broken := fun _ _ _ => hall
        error_iff := fun e => by
          rw [List.findSome?_eq_none_iff.mpr hnone]
          exact ⟨nofun, nofun⟩
        ended := fun _ => ⟨calls, none, rfl, h.unended⟩
        flushed := fun _ _ => hcount
        unflushed := fun hnot => absurd ⟨hend, hwrites⟩ hnot }

/-- A piece that could not be written to its end. -/
theorem Even.unwritten (h : Even calls) (hne : bytes ≠ []) (ho : Offering bytes (some e) more) :
    Settled (calls ++ .read (.ok bytes) :: more) (.error e) := by
  have hdelivered : delivered (calls ++ .read (.ok bytes) :: more) = delivered calls ++ bytes := by
    rw [delivered_append]
    show _ ++ (bytes ++ delivered more) = _
    rw [delivered_writes ho.writes, List.append_nil]
  have haccepted : accepted (calls ++ .read (.ok bytes) :: more) =
      delivered calls ++ accepted more := by
    rw [accepted_append, h.balanced]
    rfl
  have hread {answer : Except IoError Bytes}
      (hmem : Call.read answer ∈ calls ++ .read (.ok bytes) :: more) :
      Call.read answer ∈ calls ∨ answer = .ok bytes := by
    simp only [List.mem_append, List.mem_cons, Call.read.injEq] at hmem
    exact hmem.imp_right fun hmem => hmem.resolve_right fun hmem => ho.writes _ hmem
  have hcount : (calls ++ Call.read (.ok bytes) :: more).countP (·.IsFlush) = 0 := by
    rw [List.countP_eq_zero]
    simp only [List.forall_mem_append, List.forall_mem_cons, decide_eq_true_eq]
    exact ⟨h.unflushed, nofun, fun c hc => (ho.writes c hc).not_isFlush⟩
  have hunended : Call.read (.ok []) ∉ calls ++ .read (.ok bytes) :: more := fun hmem =>
    (hread hmem).elim h.unended fun heq => hne (Except.ok.inj heq).symm
  refine settled_of_failure ?_ ?_ (fun e hmem he => ?_) (fun hend => absurd hend hunended)
    (fun hend => absurd hend hunended) (.inr hcount)
  · rw [List.findSome?_append, h.findSome?]
    exact ho.failure
  · rw [hdelivered, haccepted, List.prefix_append_right_inj]
    exact ho.accepted_prefix
  · rcases hread hmem with hmem | heq
    · have hfailed := h.unfailed _ hmem
      simp [Call.failure?, he] at hfailed
    · cases heq

end Calls

/-! ## Loops -/

/-- The calls that a passage adds to another one. -/
def Passage.Adds {σ : Type} (p p' : Passage σ) (calls : List Call) : Prop :=
  p'.calls.reverse = p.calls.reverse ++ calls

section Loops

variable {σ : Type} {w : Writer σ}

/-- A write loop ends: an interruption costs the writer patience, and a piece that it takes leaves
fewer bytes to offer. -/
theorem patience_of_interrupted {s next : σ} {offered : Bytes}
    (h : w.write s offered = (.interrupted, next)) : w.patience next < w.patience s := by
  have hless := w.patience_lt s offered
  rw [h] at hless
  exact hless rfl

theorem length_drop_lt {bytes : Bytes} (h : ¬ bytes.isEmpty = true) (n : Nat) :
    (bytes.drop (n + 1)).length < bytes.length := by
  rw [List.isEmpty_iff] at h
  rw [List.length_drop]
  exact Nat.sub_lt (List.length_pos_iff.mpr h) (Nat.succ_pos n)

/-- A write loop makes the calls of an offering. -/
theorem Passage.writeAll_offers (w : Writer σ) (p : Passage σ) (bytes : Bytes) :
    ∃ calls, p.Adds (p.writeAll w bytes).2 calls ∧
      Offering bytes (p.writeAll w bytes).1 calls ∧
      ∀ r, Conducted w p.state r calls (p.writeAll w bytes).2.state r := by
  rw [writeAll.eq_def]
  split
  · next hempty =>
      refine ⟨[], (List.append_nil _).symm, ⟨List.forall_mem_nil _, rfl, List.nil_prefix,
        fun _ => ?_⟩, fun r => .nil _ r⟩
      exact (List.isEmpty_iff.mp hempty).symm
  next hempty =>
  split
  · next s hwrite =>
      obtain ⟨calls, hadds, hoffers, hconducted⟩ :=
        (p.note (.write bytes .interrupted) s).writeAll_offers w bytes
      refine ⟨.write bytes .interrupted :: calls, ?_, ?_, fun r => .write hwrite (hconducted r)⟩
      · rw [Adds, hadds]
        simp [note]
      · exact ⟨List.forall_mem_cons.mpr ⟨trivial, hoffers.writes⟩, hoffers.failure,
          hoffers.accepted_prefix, hoffers.whole⟩
  · next e s hwrite =>
      refine ⟨[.write bytes (.failed e)], by simp [Adds, note], ⟨by simp [Call.IsWrite], rfl,
        List.nil_prefix, fun hnone => absurd hnone (Option.some_ne_none _)⟩,
        fun r => .write hwrite (.nil s r)⟩
  · next s hwrite =>
      refine ⟨[.write bytes (.accepted 0)], by simp [Adds, note], ⟨by simp [Call.IsWrite], rfl,
        List.nil_prefix, fun hnone => absurd hnone (Option.some_ne_none _)⟩,
        fun r => .write hwrite (.nil s r)⟩
  · next n s hwrite =>
      obtain ⟨calls, hadds, hoffers, hconducted⟩ :=
        (p.note (.write bytes (.accepted (n + 1))) s).writeAll_offers w (bytes.drop (n + 1))
      refine ⟨.write bytes (.accepted (n + 1)) :: calls, ?_, ?_,
        fun r => .write hwrite (hconducted r)⟩
      · rw [Adds, hadds]
        simp [note]
      · refine ⟨List.forall_mem_cons.mpr ⟨trivial, hoffers.writes⟩, hoffers.failure, ?_,
          fun hnone => ?_⟩
        -- What was taken now comes before all that is taken of the rest.
        · show bytes.take (n + 1) ++ accepted calls <+: bytes
          conv => rhs; rw [← List.take_append_drop (n + 1) bytes]
          exact (List.prefix_append_right_inj _).mpr hoffers.accepted_prefix
        · show bytes.take (n + 1) ++ accepted calls = bytes
          rw [hoffers.whole hnone, List.take_append_drop]
termination_by (bytes.length, w.patience p.state)
decreasing_by
  · exact Prod.Lex.right _ (patience_of_interrupted ‹_›)
  · exact Prod.Lex.left _ _ (length_drop_lt ‹_› _)

/-- What is true of a copy from its start to where it has come, as long as it goes
on. -/
structure Passage.GoesOn (w : Writer σ) (start : σ) (whole : Reader) (p : Passage σ) (total : Nat)
    (r : Reader) : Prop where
  conducted : Conducted w start whole p.calls.reverse p.state r
  even : Even p.calls.reverse
  counted : total = min (delivered p.calls.reverse).length totalLimit

/-- What is true of a copy that has ended. -/
structure Transcript.Fair (w : Writer σ) (start : σ) (whole : Reader) (t : Transcript σ) :
    Prop where
  conducted : ∃ rest, Conducted w start whole t.calls t.state rest
  settled : Settled t.calls t.result

theorem Passage.close_fair {start : σ} {whole rest : Reader} {p : Passage σ}
    {calls : List Call} {result : Except IoError Nat} (hcalls : p.calls.reverse = calls)
    (hconducted : Conducted w start whole calls p.state rest) (hsettled : Settled calls result) :
    (p.close result).Fair w start whole := by
  subst hcalls
  exact ⟨⟨rest, hconducted⟩, hsettled⟩

namespace Passage.GoesOn

variable {start : σ} {whole : Reader} {p : Passage σ} {total : Nat} {r rest : Reader}
  {e : IoError} {bytes : Bytes}

theorem read (h : p.GoesOn w start whole total r) {answer : Except IoError Bytes}
    (hread : Reader.read bufferSize r = (answer, rest)) :
    Conducted w start whole (p.calls.reverse ++ [.read answer]) p.state rest :=
  h.conducted.append (.read hread (.nil _ _))

theorem interrupted (h : p.GoesOn w start whole total r)
    (hread : Reader.read bufferSize r = (.error e, rest)) (he : e.isInterrupted = true) :
    (p.note (.read (.error e)) p.state).GoesOn w start whole total rest := by
  have hcalls : (p.note (.read (.error e)) p.state).calls.reverse =
      p.calls.reverse ++ [.read (.error e)] := List.reverse_cons
  refine ⟨hcalls ▸ h.read hread, hcalls ▸ h.even.interrupted he, ?_⟩
  rw [hcalls, delivered_append, h.counted]
  exact congrArg (fun bytes => min (List.length bytes) totalLimit) (List.append_nil _).symm

theorem broken (h : p.GoesOn w start whole total r)
    (hread : Reader.read bufferSize r = (.error e, rest)) (he : e.isInterrupted = false) :
    ((p.note (.read (.error e)) p.state).close (.error e)).Fair w start whole :=
  close_fair List.reverse_cons (h.read hread) (h.even.broken he)

theorem finish (h : p.GoesOn w start whole total r)
    (hread : Reader.read bufferSize r = (.ok [], rest)) :
    (((p.note (.read (.ok [])) p.state).note (.flush (w.flush p.state).1) (w.flush p.state).2).close
      (match (w.flush p.state).1 with
        | none => .ok total
        | some e => .error e)).Fair w start whole := by
  have hconducted := h.conducted.append (.read hread (.flush rfl (.nil (w.flush p.state).2 rest)))
  exact close_fair (by simp [note]) hconducted (h.even.end _ h.counted)

/-- What a write loop leaves of a copy that has read a piece. -/
theorem offered (h : p.GoesOn w start whole total r)
    (hread : Reader.read bufferSize r = (.ok bytes, rest)) (hne : bytes ≠ []) :
    let (e?, p') := (p.fill bytes (Reader.length_read_le hread)).writeAll w bytes
    match e? with
    | none => p'.GoesOn w start whole (min (total + bytes.length) totalLimit) rest
    | some e => (p'.close (.error e)).Fair w start whole := by
  obtain ⟨calls, hadds, hoffers, hwrites⟩ :=
    (p.fill bytes (Reader.length_read_le hread)).writeAll_offers w bytes
  have hconducted := h.conducted.append (.read hread (hwrites rest))
  have hcalls : ((p.fill bytes (Reader.length_read_le hread)).writeAll w bytes).2.calls.reverse =
      p.calls.reverse ++ .read (.ok bytes) :: calls := by
    rw [hadds]
    simp [fill, note]
  generalize (p.fill bytes (Reader.length_read_le hread)).writeAll w bytes = out
    at hoffers hconducted hcalls
  obtain ⟨e?, p'⟩ := out
  cases e? with
  | some e => exact close_fair hcalls hconducted (h.even.unwritten hne hoffers)
  | none =>
      refine ⟨hcalls ▸ hconducted, hcalls ▸ h.even.piece hne hoffers, ?_⟩
      rw [hcalls, delivered_append]
      show _ = min (delivered _ ++ (bytes ++ delivered calls)).length _
      rw [delivered_writes hoffers.writes, List.append_nil, List.length_append, h.counted]
      omega

/-- A copy that has gone well so far is fair, however it ends. -/
theorem transfer {p : Passage σ} {total : Nat} {r : Reader}
    (h : p.GoesOn w start whole total r) :
    (p.transfer w total r).Fair w start whole := by
  rw [transfer.eq_def]
  split
  · next e rest hread =>
      split
      · next he =>
          have hless := Reader.weight_lt_of_read hread (by simp)
          exact (h.interrupted hread he).transfer
      · next he =>
          rw [Bool.not_eq_true] at he
          exact h.broken hread he
  · next rest hread =>
      have hflush := h.finish hread
      dsimp only [note] at hflush ⊢
      generalize w.flush p.state = flushed at hflush ⊢
      obtain ⟨answer, s⟩ := flushed
      cases answer with
      | none => exact hflush
      | some e => exact hflush
  · next b bs rest hread =>
      have hless := Reader.weight_lt_of_read hread (by simp)
      have hoffered := h.offered hread (List.cons_ne_nil b bs)
      -- The writer is offered the front of the buffer, where nothing is left of earlier pieces.
      have hfront : (p.fill (b :: bs) (Reader.length_read_le hread)).buffer.front
          (b :: bs).length = b :: bs := p.buffer.front_fill (b :: bs) (Reader.length_read_le hread)
      dsimp only
      rw [hfront]
      generalize (p.fill (b :: bs) (Reader.length_read_le hread)).writeAll w (b :: bs) = out
        at hoffered ⊢
      obtain ⟨e?, p'⟩ := out
      cases e? with
      | some e => exact hoffered
      | none => exact hoffered.transfer
termination_by Reader.weight r

end Passage.GoesOn

theorem Passage.goesOn_start (w : Writer σ) (s : σ) (buffer : Buffer) (r : Reader) :
    Passage.GoesOn w s r ⟨s, buffer, []⟩ 0 r :=
  ⟨.nil s r, even_nil, rfl⟩

/-! ## What a copy comes to -/

/-- What a writer was answered. -/
def Call.answer? : Call → Option WriteAnswer
  | write _ answer => some answer
  | _ => none

/-- The piece that a writer took. -/
def Call.piece? : Call → Option Bytes
  | write offered (.accepted (n + 1)) => some (offered.take (n + 1))
  | _ => none

/-- What a writer has been through in a passage. -/
def Passage.sent (p : Passage σ) : Sent σ :=
  ⟨p.state, p.calls.filterMap Call.answer?, p.calls.filterMap Call.piece?⟩

/-- A transcript with its calls told by kind. -/
def Transcript.outcome (t : Transcript σ) : Outcome σ where
  result := t.result
  sent := ⟨t.state, (t.calls.filterMap Call.answer?).reverse,
    (t.calls.filterMap Call.piece?).reverse⟩
  reads := t.calls.countP (·.IsRead)
  flushed := t.calls.any (·.IsFlush)

namespace Passage

theorem close_outcome (p : Passage σ) (result : Except IoError Nat) :
    (p.close result).outcome =
      ⟨result, p.sent, p.calls.countP (·.IsRead), p.calls.any (·.IsFlush)⟩ := by
  simp only [Transcript.outcome, close, sent, List.filterMap_reverse, List.reverse_reverse,
    List.countP_reverse, List.any_reverse]

theorem writeAll_sent (w : Writer σ) (p : Passage σ) (bytes : Bytes) :
    Copy.writeAll w p.sent bytes = ((p.writeAll w bytes).1, (p.writeAll w bytes).2.sent) := by
  rw [writeAll.eq_def, Copy.writeAll.eq_def]
  split
  · rfl
  next hempty =>
  have hstate : p.sent.state = p.state := rfl
  split <;> rename_i s h <;> rw [hstate] at h <;> split <;> rename_i h' <;> rw [h] at h' <;> cases h'
  · exact writeAll_sent w (p.note (.write bytes .interrupted) s) bytes
  · rfl
  · rfl
  · exact writeAll_sent w (p.note (.write bytes (.accepted _)) s) (bytes.drop _)
termination_by (bytes.length, w.patience p.state)
decreasing_by
  · exact Prod.Lex.right _ (patience_of_interrupted ‹_›)
  · exact Prod.Lex.left _ _ (length_drop_lt ‹_› _)

/-- A write loop asks neither the reader nor for a flush. -/
theorem writeAll_counts (w : Writer σ) (p : Passage σ) (bytes : Bytes) :
    (p.writeAll w bytes).2.calls.countP (·.IsRead) = p.calls.countP (·.IsRead) ∧
      (p.writeAll w bytes).2.calls.any (·.IsFlush) = p.calls.any (·.IsFlush) := by
  obtain ⟨calls, hadds, hoffers, -⟩ := p.writeAll_offers w bytes
  have hread : calls.countP (·.IsRead) = 0 := List.countP_eq_zero.mpr fun c hc => by
    simpa using (hoffers.writes c hc).not_isRead
  have hflush : calls.any (·.IsFlush) = false := List.any_eq_false.mpr fun c hc => by
    simpa using (hoffers.writes c hc).not_isFlush
  rw [← List.countP_reverse, ← List.any_reverse, hadds]
  simp [hread, hflush]

theorem countP_read (calls : List Call) (answer : Except IoError Bytes) :
    (Call.read answer :: calls).countP (·.IsRead) = calls.countP (·.IsRead) + 1 :=
  List.countP_cons_of_pos rfl

theorem countP_flush (calls : List Call) (answer : Option IoError) :
    (Call.flush answer :: calls).countP (·.IsRead) = calls.countP (·.IsRead) :=
  List.countP_cons_of_neg Bool.false_ne_true

/-- A copy through a buffer comes to what a copy comes to. -/
theorem transfer_outcome (w : Writer σ) (p : Passage σ) (total : Nat) (r : Reader)
    (hunflushed : p.calls.any (·.IsFlush) = false) :
    (p.transfer w total r).outcome =
      Copy.transfer w p.sent (p.calls.countP (·.IsRead)) total r := by
  rw [transfer.eq_def]
  split
  · next e rest hread =>
      dsimp only
      split
      · next he =>
          have hless := Reader.weight_lt_of_read hread (by simp)
          have hsame := (p.note (.read (.error e)) p.state).transfer_outcome w total rest hunflushed
          rw [Copy.transfer_of_interrupted hread he, hsame]
          exact congrArg (Copy.transfer w p.sent · total rest) (countP_read p.calls _)
      · next he =>
          rw [Bool.not_eq_true] at he
          rw [Copy.transfer_of_failure hread he, close_outcome]
          show (⟨_, p.sent, _, p.calls.any (·.IsFlush)⟩ : Outcome σ) = _
          rw [hunflushed]
          exact congrArg (fun reads => (⟨_, p.sent, reads, false⟩ : Outcome σ))
            (countP_read p.calls _)
  · next rest hread =>
      rw [Copy.transfer.eq_def]
      split <;> rename_i h' <;> rw [hread] at h' <;> cases h'
      have hstate : p.sent.state = p.state := rfl
      dsimp only [note]
      rw [hstate]
      generalize w.flush p.state = flushed
      obtain ⟨answer, s⟩ := flushed
      cases answer with
      | none =>
          dsimp only
          rw [close_outcome, countP_flush, countP_read]
          rfl
      | some e =>
          dsimp only
          rw [close_outcome, countP_flush, countP_read]
          rfl
  · next b bs rest hread =>
      have hless := Reader.weight_lt_of_read hread (by simp)
      rw [Copy.transfer.eq_def]
      split <;> rename_i h' <;> rw [hread] at h' <;> cases h'
      have hfront : (p.fill (b :: bs) (Reader.length_read_le hread)).buffer.front
          (b :: bs).length = b :: bs := p.buffer.front_fill (b :: bs) (Reader.length_read_le hread)
      have hsent := (p.fill (b :: bs) (Reader.length_read_le hread)).writeAll_sent w (b :: bs)
      obtain ⟨hreads, hflushes⟩ :=
        (p.fill (b :: bs) (Reader.length_read_le hread)).writeAll_counts w (b :: bs)
      dsimp only
      rw [hfront, show p.sent = (p.fill (b :: bs) (Reader.length_read_le hread)).sent from rfl,
        hsent]
      generalize (p.fill (b :: bs) (Reader.length_read_le hread)).writeAll w (b :: bs) = out
        at hreads hflushes
      obtain ⟨e?, p'⟩ := out
      have hcount : p'.calls.countP (·.IsRead) = p.calls.countP (·.IsRead) + 1 :=
        hreads.trans (countP_read p.calls _)
      have hunflushed' : p'.calls.any (·.IsFlush) = false := hflushes.trans hunflushed
      cases e? with
      | some e =>
          dsimp only
          rw [close_outcome, hcount, hunflushed']
      | none =>
          dsimp only
          rw [p'.transfer_outcome w _ rest hunflushed', hcount]
termination_by Reader.weight r

end Passage

end Loops

/-! ## The whole copy -/

/-- A copy is fair to its reader and its writer, whatever earlier copies left in the
buffer, and comes to what a copy without a buffer comes to. -/
theorem through_fair {σ : Type} (w : Writer σ) (s : σ) (buffer : Buffer) (r : Reader) :
    (through w s buffer r).Fair w s r ∧ (through w s buffer r).outcome = run w s r :=
  ⟨(Passage.goesOn_start w s buffer r).transfer,
    Passage.transfer_outcome w ⟨s, buffer, []⟩ 0 r rfl⟩

end AssetUnpack.Copy
