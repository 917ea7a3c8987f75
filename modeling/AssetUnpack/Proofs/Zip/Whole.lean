import AssetUnpack.Proofs.Stream.Transcript
import AssetUnpack.Proofs.Zip.Reading

/-!
# Copies of an entry

A copy that goes well has come to the end of the file, and the reader of an entry does
not report one unless all that it handed out is what the directory promised. So
whoever copies an entry and succeeds has the whole of it (`copiedWhole_of_reads`),
however short the fetches fell and whatever the decoder did.

`Span.supplies` tells in advance what a reader of an entry will hand out. `Foretold`
relates the two: they give the same answers up to the first failure or the end of the
file, which is as far as a copy reads.
-/

namespace AssetUnpack

namespace Zip

/-! ## Reads from the start -/

theorem EntryReader.readAll_concat {δ : Type} {dec : Decoder δ} {bytes : Bytes} (cursor : Nat)
    (r : EntryReader δ) (asks : List Ask) (ask : Ask) :
    (r.readAll dec bytes cursor (asks ++ [ask])).1 =
      (r.readAll dec bytes cursor asks).1 ++
        [((r.readAll dec bytes cursor asks).2.2.read dec bytes
          (r.readAll dec bytes cursor asks).2.1 ask.room ask.least).1] := by
  induction asks generalizing cursor r with
  | nil => rfl
  | cons first asks ih =>
      rw [List.cons_append, readAll_cons, readAll_cons]
      exact congrArg _ (ih ..)

section FromStart

variable {δ : Type} (dec : Decoder δ) (span : Span) (packing : Packing) (bytes : Bytes)
  (asks : List Ask)

/-- Reads of an entry from its start. -/
def Span.reads : List (Except IoError Bytes) × Nat × EntryReader δ :=
  (span.reader dec packing).readAll dec bytes span.start asks

/-- One more read after these. -/
def Span.readNext (ask : Ask) : Except IoError Bytes × Nat × EntryReader δ :=
  let (_, cursor, r) := span.reads dec packing bytes asks
  r.read dec bytes cursor ask.room ask.least

theorem Span.account_reader : (span.reader dec packing).account = span.account.count [] := by
  cases packing <;> rfl

/-- The account is always that of what was handed out. -/
theorem Span.accounted_reads :
    (span.reads dec packing bytes asks).2.2.account =
      span.account.count (received (span.reads dec packing bytes asks).1) :=
  EntryReader.accounted_readAll dec bytes span.start (span.account_reader dec packing) asks

/-- No end of the file is reported but of what the directory promised. -/
theorem Span.passes_of_end {ask : Ask} (hroom : ask.room ≠ 0)
    (hend : (span.readNext dec packing bytes asks ask).1 = .ok []) :
    span.Passes (received (span.reads dec packing bytes asks).1) :=
  (EntryReader.read_accounted dec bytes _ (span.accounted_reads dec packing bytes asks) ask).2
    hroom hend

theorem Span.reads_concat (ask : Ask) :
    (span.reads dec packing bytes (asks ++ [ask])).1 =
      (span.reads dec packing bytes asks).1 ++ [(span.readNext dec packing bytes asks ask).1] :=
  EntryReader.readAll_concat span.start (span.reader dec packing) asks ask

end FromStart

/-! ## Copies -/

/-- What the bytes of an entry come to: themselves, or what the decoder makes of them. -/
def Span.ComesTo {δ : Type} (dec : Decoder δ) (span : Span) (packing : Packing)
    (bytes content : Bytes) : Prop :=
  let packed := fetch bytes span.start span.compressedSize
  match packing with
  | .stored => content = packed
  | .deflated => dec.Delivers packed content

/-- A copy of an entry that went well: what was copied is what the directory promised, and so is
its length. -/
structure Span.CopiedWhole (span : Span) (copied : Bytes) (total : Nat) : Prop where
  passes : span.Passes copied
  total_eq : span.size ≤ Copy.totalLimit → total = span.size

section Copies

variable {δ : Type} {dec : Decoder δ} {span : Span} {packing : Packing} {bytes : Bytes}

/-- A reader of an entry owes what its bytes come to. -/
theorem Span.ComesTo.amid {content : Bytes} (h : span.ComesTo dec packing bytes content) :
    ∃ Due, dec.Meets Due ∧
      EntryReader.Amid Due span bytes [] content span.start (span.reader dec packing) := by
  cases packing with
  | stored =>
      -- No decoder is asked, so nothing need be due of it.
      exact ⟨fun _ _ _ => False, ⟨nofun, nofun, nofun⟩, rfl, h.symm⟩
  | deflated =>
      obtain ⟨Due, hdec, hdue⟩ := h
      exact ⟨Due, hdec, rfl, hdue⟩

theorem received_reads (calls : List Copy.Call) :
    received (Copy.reads calls) = Copy.delivered calls := by
  induction calls with
  | nil => rfl
  | cons c calls ih =>
      cases c with
      | read answer =>
          cases answer with
          | ok piece => exact congrArg (piece ++ ·) ih
          | error e => exact ih
      | write offered answer | flush answer => exact ih

/-- Whoever copies what a reader of an entry answers, and succeeds, has all of it. -/
theorem copiedWhole_of_reads {σ : Type} {w : Writer σ} {s : σ} {buffer : Copy.Buffer}
    {source : Reader} {total : Nat} {asks : List Ask} (hasks : ∀ ask ∈ asks, ask.room ≠ 0)
    (hreads : Copy.reads (Copy.through w s buffer source).calls =
      (span.reads dec packing bytes asks).1)
    (hok : (Copy.through w s buffer source).result = .ok total) :
    span.CopiedWhole (Copy.delivered (Copy.through w s buffer source).calls) total := by
  have hsettled := (Copy.through_fair w s buffer source).1.settled
  generalize Copy.through w s buffer source = t at hsettled hreads hok ⊢
  obtain ⟨before, answer, hcalls, -⟩ :=
    hsettled.ended (hsettled.ok_iff.mp ⟨total, hok⟩).1
  have hdelivered : Copy.delivered t.calls = Copy.delivered before := by
    rw [hcalls, Copy.delivered_append]
    exact List.append_nil _
  have hlast : Copy.reads t.calls = Copy.reads before ++ [.ok []] := by
    rw [hcalls]
    exact List.filterMap_append
  have hpasses : span.Passes (Copy.delivered before) := by
    rcases List.eq_nil_or_concat asks with rfl | ⟨init, ask, rfl⟩
    · rw [hlast] at hreads
      exact absurd hreads (List.concat_ne_nil _ _)
    · -- The last read of the entry is the one that reported the end of the file.
      rw [List.concat_eq_append] at hreads hasks
      rw [hlast, span.reads_concat] at hreads
      obtain ⟨hinit, hend⟩ := List.append_inj' hreads rfl
      rw [← received_reads, hinit]
      exact span.passes_of_end dec packing bytes init
        (hasks ask (List.mem_append_right _ (List.mem_singleton_self ask)))
        (List.singleton_inj.mp hend).symm
  rw [← hdelivered] at hpasses
  refine ⟨hpasses, fun hsize => ?_⟩
  rw [(hsettled.ok total hok).2, hpasses.size, Nat.min_eq_left hsize]

end Copies

/-! ## What is told in advance -/

namespace EntryReader

open Deflate (Stage)

/-- What is still to be handed out of an entry, before anything is verified. -/
def ahead (bytes : Bytes) (cursor : Nat) (r : EntryReader Stage) : Reader :=
  let left := Intake.left ⟨cursor, r.remaining⟩ bytes
  match r.decoding with
  | none => .ofBytes left
  | some (.gathering packed) => (Deflate.decode (packed ++ left)).reader 0
  | some (.reading content) => content

/-- A reader that tells what a reader of an entry will hand out: the content and, unless that
breaks off, the verdict on it. -/
def Foretold (bytes : Bytes) (told : Reader) (cursor : Nat) (r : EntryReader Stage) : Prop :=
  (r.ahead bytes cursor).Straight ∧ ∃ verdict, told = r.ahead bytes cursor ++ verdict ∧
    ((r.ahead bytes cursor).drain.2 = none →
      verdict = (r.account.count (r.ahead bytes cursor).drain.1).verdict.toList.map .fault)

/-- What a package supplies is what the reader of the entry will hand out. -/
theorem foretold_supplies (span : Span) (packing : Packing) (bytes : Bytes) :
    Foretold bytes (span.supplies packing bytes) span.start (span.reader Deflate.decoder packing) := by
  cases packing with
  | stored => exact ⟨Reader.straight_ofBytes _, _, rfl, fun _ => rfl⟩
  | deflated => exact ⟨Deflate.Decoded.reader_straight _ 0, _, rfl, fun _ => rfl⟩

section Told

variable {bytes : Bytes} {cursor room : Nat} {least : Nat → Nat} {r : EntryReader Stage}

/-- Once all packed bytes are there, a stream is read. -/
theorem unpack_reading (bytes : Bytes) (i : Intake) (hroom : room ≠ 0) (least : Nat → Nat)
    (content : Reader) :
    i.unpack Deflate.decoder bytes room least (.reading content) =
      ((content.read room).1, i, .reading (content.read room).2) := by
  rw [Intake.unpack.eq_def, Deflate.step_reading]
  split <;> rename_i h <;> rw [if_neg hroom] at h <;> split at h <;> cases h <;>
    rename_i hread <;> rw [hread]

/-- Before that, they are fetched. -/
theorem unpack_gathering (bytes : Bytes) (i : Intake) (hroom : room ≠ 0) (least : Nat → Nat)
    (packed : Bytes) :
    ∃ i', i.unpack Deflate.decoder bytes room least (.gathering packed) =
      let content := (Deflate.decode (packed ++ i.left bytes)).reader 0
      ((content.read room).1, i', .reading (content.read room).2) := by
  generalize hs : Stage.gathering packed = s
  fun_induction i.unpack Deflate.decoder bytes room least s generalizing packed with
  | case1 least i s piece next hstep =>
      subst hs
      cases hstep
  | case2 least i s e next hstep =>
      subst hs
      cases hstep
  | case3 least i s more next hstep piece ih =>
      subst hs
      cases hstep
      obtain ⟨rest, hrest⟩ := i.piece_prefix bytes (Deflate.portion - 1 + 1) (least 0)
      have hleft : (i.past piece).left bytes = rest := by
        rw [Intake.left_past, ← hrest, List.drop_left]
      by_cases hnil : piece = []
      · have hleft : i.left bytes = [] := Intake.left_eq_nil (Nat.succ_ne_zero _) hnil
        rw [hnil, hleft, List.append_nil]
        exact ⟨_, unpack_reading bytes _ hroom _ _⟩
      · have hnext : Stage.gathering (packed ++ piece) =
            if piece.isEmpty then .reading ((Deflate.decode packed).reader 0)
            else .gathering (packed ++ piece) := by
          rw [if_neg (by simpa using hnil)]
        obtain ⟨i', hunpack⟩ := ih (packed ++ piece) hnext
        refine ⟨i', hunpack.trans ?_⟩
        rw [hleft, List.append_assoc, hrest]

/-- What a reader of an entry has for a read is what comes next in what is ahead of it. -/
theorem takePiece_ahead (r : EntryReader Stage) (cursor : Nat) (hroom : room ≠ 0)
    (hleast : room ≤ least 0 + 1) {answer : Except IoError Bytes} {rest : Reader}
    (hread : (r.ahead bytes cursor).read room = (answer, rest)) :
    ∃ cursor' r', takePiece Deflate.decoder bytes cursor r room least = (answer, cursor', r') ∧
      (answer ≠ .ok [] → r'.ahead bytes cursor' = rest) := by
  obtain ⟨remaining, decoding, account⟩ := r
  rcases decoding with _ | packed | content
  · let i : Intake := ⟨cursor, remaining⟩
    have hpiece : i.piece bytes room (least 0) = (i.left bytes).take room := by
      rw [Intake.piece_eq_take, Nat.min_eq_left hleast]
    have htake : takePiece Deflate.decoder bytes cursor ⟨remaining, none, account⟩ room least =
        (.ok (i.piece bytes room (least 0)), (i.past (i.piece bytes room (least 0))).cursor,
          ⟨(i.past (i.piece bytes room (least 0))).remaining, none, account⟩) := rfl
    replace hread : Reader.read room (.ofBytes (i.left bytes)) = (answer, rest) := hread
    by_cases hleft : i.left bytes = []
    · rw [hleft] at hread hpiece
      obtain ⟨rfl, rfl⟩ := Prod.mk.inj hread
      rw [hpiece, List.take_nil] at htake
      exact ⟨_, _, htake, fun hne => absurd rfl hne⟩
    · rw [Copy.read_ofBytes room hleft] at hread
      obtain ⟨rfl, rfl⟩ := Prod.mk.inj hread
      refine ⟨_, _, hpiece ▸ htake, fun _ => ?_⟩
      show Reader.ofBytes ((i.past _).left bytes) = _
      rw [Intake.left_past, List.length_take]
      exact congrArg Reader.ofBytes (List.drop_eq_drop_iff.mpr (by omega))
  · obtain ⟨i', hunpack⟩ := unpack_gathering bytes ⟨cursor, remaining⟩ hroom least packed
    replace hread : ((Deflate.decode (packed ++ Intake.left ⟨cursor, remaining⟩ bytes)).reader
        0).read room = (answer, rest) := hread
    dsimp only at hunpack
    rw [hread] at hunpack
    exact ⟨_, _, takePiece_of_unpack hunpack, fun _ => rfl⟩
  · have hunpack := unpack_reading bytes ⟨cursor, remaining⟩ hroom least content
    replace hread : content.read room = (answer, rest) := hread
    rw [hread] at hunpack
    exact ⟨_, _, takePiece_of_unpack hunpack, fun _ => rfl⟩

/-- No verdict asks to be tried again. -/
theorem not_interrupted_of_verdict {a : Account} {e : IoError} (h : a.verdict = some e) :
    e.isInterrupted = false := by
  rw [Account.verdict] at h
  split at h
  · cases h
    rfl
  · split at h
    · cases h
      rfl
    · cases h

/-- What is foretold is what a reader of an entry answers, as long as nothing fails and there is
more. -/
theorem Foretold.read {told : Reader} (h : r.Foretold bytes told cursor) {ask : Ask}
    (hroom : ask.room ≠ 0) (hleast : ask.room ≤ ask.least 0 + 1) :
    let after := r.read Deflate.decoder bytes cursor ask.room ask.least
    (Reader.read ask.room told).1 = after.1 ∧
      (∀ e, (Reader.read ask.room told).1 = .error e → e.isInterrupted = false) ∧
      ∀ piece, (Reader.read ask.room told).1 = .ok piece → piece ≠ [] →
        after.2.2.Foretold bytes (Reader.read ask.room told).2 after.2.1 := by
  obtain ⟨hstraight, verdict, rfl, hverdict⟩ := h
  generalize hread : (r.ahead bytes cursor).read ask.room = answered
  obtain ⟨answer, rest⟩ := answered
  obtain ⟨cursor', r', htake, hrest⟩ := takePiece_ahead r cursor hroom hleast hread
  have haccount : r'.account = r.account := by
    rw [← account_takePiece Deflate.decoder bytes cursor r ask.room ask.least, htake]
  rcases answer with e | piece
  · obtain ⟨hfailed, he, -⟩ := hstraight.read_failure verdict hread
    rw [read_of_failure htake, hfailed]
    exact ⟨rfl, fun e' h => Except.error.inj h ▸ he, nofun⟩
  · by_cases hnil : piece = []
    · subst hnil
      obtain ⟨-, hdrain, hend⟩ := hstraight.read_end hroom verdict hread
      rw [hend, read_of_end htake hroom, haccount, hverdict (congrArg Prod.snd hdrain), hdrain,
        Account.count_nil]
      cases hv : r.account.verdict with
      | none => exact ⟨rfl, nofun, fun piece h hne => absurd (Except.ok.inj h).symm hne⟩
      | some e =>
          exact ⟨rfl, fun e' h => Except.error.inj h ▸ not_interrupted_of_verdict hv, nofun⟩
    · obtain ⟨hmore, hstraight', hfault, hpiece⟩ := hstraight.read_piece verdict hread hnil
      rw [read_of_piece htake fun hend => hnil hend.1, hmore]
      have hahead : EntryReader.ahead bytes cursor'
          { r' with account := r'.account.count piece } = rest :=
        hrest fun h => hnil (Except.ok.inj h)
      refine ⟨rfl, nofun, fun _ _ _ => ?_⟩
      unfold Foretold
      rw [hahead]
      refine ⟨hstraight', verdict, rfl, fun hnone => ?_⟩
      rw [hverdict (hfault.trans hnone), hpiece (hfault.trans hnone), haccount,
        ← Account.count_append]

end Told

end EntryReader

/-! ## Copies of what is told -/

section CopiesTold

variable {σ : Type} {w : Writer σ} {bytes : Bytes}

/-- A read with room for a buffer that does not fall short. -/
def fullRead : Ask := ⟨Copy.bufferSize, fun _ => Copy.bufferSize⟩

/-- Such reads in a row. -/
def fullReads (count : Nat) : List Ask := List.replicate count fullRead

/-- A copy in which nothing fails reads what the reader of the entry answers. -/
theorem reads_of_foretold {s s' : σ} {told told' : Reader} {calls : List Copy.Call}
    (h : Copy.Conducted w s told calls s' told') {cursor : Nat} {r : EntryReader Deflate.Stage}
    (htold : r.Foretold bytes told cursor) (hunfailed : ∀ c ∈ calls, c.failure? = none)
    (hended : ∀ before after, calls = before ++ .read (.ok []) :: after → Copy.reads after = []) :
    Copy.reads calls =
      (r.readAll Deflate.decoder bytes cursor (fullReads (Copy.reads calls).length)).1 := by
  induction h generalizing cursor r with
  | nil s told => rfl
  | write hwrite more ih =>
      refine ih htold (fun c hc => hunfailed c (.tail _ hc)) fun before after hcalls => ?_
      exact hended (_ :: before) after (congrArg _ hcalls)
  | flush hflush more ih =>
      refine ih htold (fun c hc => hunfailed c (.tail _ hc)) fun before after hcalls => ?_
      exact hended (_ :: before) after (congrArg _ hcalls)
  | @read s s' told rest told' answer calls hread more ih =>
      have hroom : fullRead.room ≠ 0 := by decide
      have hleast : fullRead.room ≤ fullRead.least 0 + 1 := Nat.le_succ _
      obtain ⟨hanswer, hfaults, hmore⟩ := htold.read hroom hleast
      rw [show Reader.read fullRead.room told = (answer, rest) from hread] at hanswer hfaults hmore
      show answer :: Copy.reads calls =
        (r.readAll Deflate.decoder bytes cursor (_ :: fullReads (Copy.reads calls).length)).1
      rw [EntryReader.readAll_cons]
      dsimp only
      rw [← hanswer]
      refine congrArg (answer :: ·) ?_
      have hnext (before after) (hcalls : calls = before ++ .read (.ok []) :: after) :
          Copy.reads after = [] := hended (_ :: before) after (congrArg _ hcalls)
      rcases answer with e | piece
      · have hnone := hunfailed _ (.head _)
        simp [Copy.Call.failure?, hfaults e rfl] at hnone
      · by_cases hnil : piece = []
        · subst hnil
          rw [hended [] calls rfl]
          rfl
        · exact ih (hmore piece rfl hnil) (fun c hc => hunfailed c (.tail _ hc)) hnext

/-- A copy of what a package supplies that goes well reads what the reader of the entry answers. -/
theorem reads_of_supplies {span : Span} {packing : Packing} {s : σ} {buffer : Copy.Buffer}
    {total : Nat}
    (hok : (Copy.through w s buffer (span.supplies packing bytes)).result = .ok total) :
    let calls := (Copy.through w s buffer (span.supplies packing bytes)).calls
    Copy.reads calls =
      (span.reads Deflate.decoder packing bytes (fullReads (Copy.reads calls).length)).1 := by
  obtain ⟨⟨rest, hconducted⟩, hsettled⟩ :=
    (Copy.through_fair w s buffer (span.supplies packing bytes)).1
  obtain ⟨hend, -, hunfailed⟩ := hsettled.ok_iff.mp ⟨total, hok⟩
  obtain ⟨init, answer, hcalls, hinit⟩ := hsettled.ended hend
  refine reads_of_foretold hconducted (EntryReader.foretold_supplies span packing bytes) hunfailed
    fun before after hsplit => ?_
  -- The end of the file is read but once, so what comes after it is the flush.
  rw [hcalls] at hsplit
  rcases List.append_eq_append_iff.mp hsplit with ⟨more, rfl, hmore⟩ | ⟨more, rfl, hmore⟩
  · cases more with
    | nil =>
        cases hmore
        rfl
    | cons c more =>
        have hmem : Copy.Call.read (.ok []) ∈ [Copy.Call.flush answer] := by
          rw [(List.cons.inj hmore).2]
          exact List.mem_append_right _ (.head _)
        simp at hmem
  · cases more with
    | nil =>
        cases hmore
        rfl
    | cons c more =>
        obtain ⟨rfl, -⟩ := List.cons.inj hmore
        exact absurd (List.mem_append_right _ (.head _)) hinit

theorem room_of_fullReads {count : Nat} {ask : Ask} (h : ask ∈ fullReads count) :
    ask.room = Copy.bufferSize := by
  rw [List.eq_of_mem_replicate h]
  rfl

/-- Whoever copies what a package supplies, and succeeds, has all of it. -/
theorem copiedWhole_of_supplies {span : Span} {packing : Packing} {s : σ} {buffer : Copy.Buffer}
    {total : Nat}
    (hok : (Copy.through w s buffer (span.supplies packing bytes)).result = .ok total) :
    span.CopiedWhole
      (Copy.delivered (Copy.through w s buffer (span.supplies packing bytes)).calls) total := by
  refine copiedWhole_of_reads (fun ask hask => ?_) (reads_of_supplies hok) hok
  rw [room_of_fullReads hask]
  decide

end CopiesTold

/-! ## The whole entry or none -/

section Whole

variable {δ : Type} (dec : Decoder δ) (span : Span) (packing : Packing) (bytes : Bytes)
  (asks : List Ask)

/-- With a decoder that gives what it should, the next read is answered by what was handed out. -/
theorem Span.ComesTo.answers {content : Bytes} (h : span.ComesTo dec packing bytes content) :
    span.Answers content (received (span.reads dec packing bytes asks).1) fun ask =>
      (span.readNext dec packing bytes asks ask).1 := by
  obtain ⟨Due, hdec, hamid⟩ := h.amid
  obtain ⟨rest, rfl, hafter⟩ := hamid.readAll hdec asks
  exact hafter.answers hdec

/-- Whatever was read of an entry so far, with whatever room and fetches:

* with a decoder that gives what it should, or none, the next read hands out more of the content,
  and at the end of it reports the end of the file if the content is what the directory promised
  and fails if it is not, now and ever after;
* with any decoder, the end of the file is reported only of what the directory promised;
* without room, a stored entry stays as it is;
* a copy that is answered like this, and one of what the package supplies, succeeds only with
  what the directory promised. -/
theorem Span.verified :
    (∀ content, span.ComesTo dec packing bytes content →
      span.Answers content (received (span.reads dec packing bytes asks).1) fun ask =>
        (span.readNext dec packing bytes asks ask).1) ∧
    (∀ ask, ask.room ≠ 0 → (span.readNext dec packing bytes asks ask).1 = .ok [] →
      span.Passes (received (span.reads dec packing bytes asks).1)) ∧
    (packing = .stored → ∀ least, span.readNext dec packing bytes asks ⟨0, least⟩ =
      (.ok [], (span.reads dec packing bytes asks).2)) ∧
    (∀ (σ : Type) (w : Writer σ) (s : σ) (buffer : Copy.Buffer) (source : Reader) (total : Nat),
      (∀ ask ∈ asks, ask.room = Copy.bufferSize) →
      Copy.reads (Copy.through w s buffer source).calls = (span.reads dec packing bytes asks).1 →
      (Copy.through w s buffer source).result = .ok total →
      span.CopiedWhole (Copy.delivered (Copy.through w s buffer source).calls) total) ∧
    ∀ (σ : Type) (w : Writer σ) (s : σ) (buffer : Copy.Buffer) (total : Nat),
      (Copy.through w s buffer (span.supplies packing bytes)).result = .ok total →
      span.CopiedWhole
        (Copy.delivered (Copy.through w s buffer (span.supplies packing bytes)).calls) total := by
  refine ⟨fun content hcontent => hcontent.answers dec span packing bytes asks,
    fun ask hroom hend => span.passes_of_end dec packing bytes asks hroom hend,
    fun hstored least => ?_, fun σ w s buffer source total hasks hreads hok => ?_,
    fun σ w s buffer total hok => copiedWhole_of_supplies hok⟩
  · subst hstored
    exact EntryReader.read_without_room (EntryReader.decoding_readAll rfl asks) least
  · refine copiedWhole_of_reads (fun ask hask => ?_) hreads hok
    rw [hasks ask hask]
    decide

end Whole

/-- Two bytes in the middle of a package. -/
def Span.small : Span := ⟨1, 2, 2, 2507733193, 0⟩

/-- A deflated byte at the start of a package. -/
def Span.packed : Span := ⟨0, 6, 1, 1281784366, 8⟩

/-- The packed byte is fetched in pieces of one; the two others are read to their end and copied. -/
theorem Span.verified_small :
    (Span.packed.Answers [7]
      (received (Span.packed.reads Deflate.decoder .deflated [1, 1, 0, 254, 255, 7]
        [⟨4, fun _ => 0⟩]).1) fun ask =>
      (Span.packed.readNext Deflate.decoder .deflated [1, 1, 0, 254, 255, 7]
        [⟨4, fun _ => 0⟩] ask).1) ∧
    Span.small.Passes
      (received (Span.small.reads Deflate.decoder .stored [10, 20, 30, 40] [⟨2, fun _ => 1⟩]).1) ∧
    (Span.small.readNext Deflate.decoder .stored [10, 20, 30, 40] [⟨2, fun _ => 1⟩]
      ⟨0, fun _ => 0⟩).1 = .ok [] ∧
    Span.small.CopiedWhole (Copy.delivered (Copy.through Writer.keeping () .new
      (Span.small.supplies .stored [10, 20, 30, 40])).calls) 2 := by
  have hstored : Span.small.supplies .stored [10, 20, 30, 40] = .ofBytes [20, 30] := by
    decide +kernel
  have hok : (Copy.through Writer.keeping () .new
      (Span.small.supplies .stored [10, 20, 30, 40])).result = .ok 2 := by
    rw [hstored]
    exact (congrArg Copy.Outcome.result (Copy.through_fair _ _ _ _).2).trans
      (Copy.run_keeping [20, 30]).1
  have hpasses : Span.small.Passes [20, 30] := ⟨rfl, by decide +kernel⟩
  have hpacked : Deflate.decoder.Delivers [1, 1, 0, 254, 255, 7] [7] := by
    have hcontent : (Deflate.decode [1, 1, 0, 254, 255, 7]).content = [7] := by decide +kernel
    rw [← hcontent]
    exact Deflate.decoder_delivers (by decide +kernel)
  have hanswers := (Span.verified Deflate.decoder Span.small .stored [10, 20, 30, 40]
    [⟨2, fun _ => 1⟩]).1 [20, 30] rfl
  refine ⟨(Span.verified Deflate.decoder Span.packed .deflated _ _).1 [7] hpacked,
    (Span.verified Deflate.decoder Span.small .stored _ _).2.1 ⟨1, fun _ => 0⟩ (by decide)
      ((hanswers.end_iff _ (by decide)).mpr ⟨rfl, hpasses⟩), ?_, ?_⟩
  · rw [(Span.verified Deflate.decoder Span.small .stored _ _).2.2.1 rfl]
  · exact (Span.verified Deflate.decoder Span.small .stored [10, 20, 30, 40] _).2.2.2.1 _ _ _ _ _ 2
      (fun _ hask => room_of_fullReads hask) (reads_of_supplies hok) hok

end Zip

end AssetUnpack
