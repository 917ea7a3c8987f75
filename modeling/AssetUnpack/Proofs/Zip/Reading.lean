import AssetUnpack.Proofs.Stream.Decoder
import AssetUnpack.Zip.Entry

/-!
# Entries that pass for whole

A reader of an entry stacks three things: the bytes of the entry in its package, which
may come in pieces of any size and end too early; a decoder, if there is one; and the
account, which decides at the end whether what was handed out is what the directory
promised.

`EntryReader.Amid` is the invariant of any number of reads: so much of the content
was handed out and accounted for, and the rest is still to come. What the next read
answers depends on nothing else, so an end of the file that is refused once is refused
for ever. The decoder enters only through `Decoder.Delivers`, which says that whoever
feeds it the packed bytes, in whatever pieces, gets the content.

That nothing passes for whole that is not does not even need that: it holds with any
decoder, since the account is kept of what is handed out and of nothing else
(`accounted_readAll`).
-/

namespace AssetUnpack

namespace Zip

/-! ## Fetching -/

namespace Intake

/-- The bytes that are left of an entry. -/
def left (i : Intake) (bytes : Bytes) : Bytes := fetch bytes i.cursor i.remaining

section Piece

variable (i : Intake) (bytes : Bytes) (room least : Nat)

theorem piece_eq_take : i.piece bytes room least = (i.left bytes).take (min room (least + 1)) := by
  rw [piece, left, fetch, fetch, List.take_take]
  congr 1
  omega

theorem piece_prefix : i.piece bytes room least <+: i.left bytes := by
  rw [piece_eq_take]
  exact List.take_prefix _ _

theorem length_piece_le_room : (i.piece bytes room least).length ≤ room := by
  rw [piece_eq_take, List.length_take]
  omega

theorem left_past (piece : Bytes) : (i.past piece).left bytes = (i.left bytes).drop piece.length := by
  rw [left, left, past, fetch, fetch, List.drop_take, List.drop_drop]

variable {i bytes room least}

theorem left_eq_nil (hroom : room ≠ 0) (h : i.piece bytes room least = []) :
    i.left bytes = [] := by
  rw [piece_eq_take, List.take_eq_nil_iff] at h
  exact h.resolve_left (by omega)

end Piece

section Unpack

variable {δ : Type} {dec : Decoder δ} {bytes : Bytes} {i : Intake} {room : Nat} {least : Nat → Nat}
  {s : δ}

theorem unpack_of_gives {piece : Bytes} {next : δ}
    (h : dec.step s room = .gives piece next) :
    i.unpack dec bytes room least s = (.ok piece, i, next) := by
  rw [unpack.eq_def]
  split <;> rename_i h' <;> rw [h] at h' <;> cases h'
  rfl

theorem unpack_of_fails {e : IoError} {next : δ} (h : dec.step s room = .fails e next) :
    i.unpack dec bytes room least s = (.error e, i, next) := by
  rw [unpack.eq_def]
  split <;> rename_i h' <;> rw [h] at h' <;> cases h'
  rfl

theorem unpack_of_wants {more : Nat} {next : Bytes → δ}
    (h : dec.step s room = .wants more next) :
    i.unpack dec bytes room least s =
      (i.past (i.piece bytes (more + 1) (least 0))).unpack dec bytes room (fun n => least (n + 1))
        (next (i.piece bytes (more + 1) (least 0))) := by
  conv => lhs; rw [unpack.eq_def]
  split <;> rename_i h' <;> rw [h] at h' <;> cases h'
  rfl

/-- What a decoder that meets what is due gives where it is asked for bytes. -/
theorem unpack_delivers {Due : δ → Bytes → Bytes → Prop} (hdec : dec.Meets Due) (room : Nat)
    (least : Nat → Nat) {content : Bytes} (hdue : Due s (i.left bytes) content) :
    ∃ piece i' s', i.unpack dec bytes room least s = (.ok piece, i', s') ∧ piece <+: content ∧
      (room ≠ 0 → piece = [] → content = []) ∧
      Due s' (i'.left bytes) (content.drop piece.length) := by
  fun_induction i.unpack dec bytes room least s with
  | case1 least i s piece next hstep =>
      exact ⟨piece, i, next, rfl, hdec.gives hdue hstep⟩
  | case2 least i s e next hstep => exact absurd hstep (hdec.unfailing hdue)
  | case3 least i s more next hstep piece ih =>
      refine ih ?_
      rw [left_past]
      exact hdec.wants hdue hstep piece (i.piece_prefix ..) (i.length_piece_le_room ..)
        (left_eq_nil (Nat.succ_ne_zero more))

/-- No decoder gives more than there is room for. -/
theorem length_unpack_le {piece : Bytes}
    (h : (i.unpack dec bytes room least s).1 = .ok piece) : piece.length ≤ room := by
  fun_induction i.unpack dec bytes room least s with
  | case1 least i s given next hstep =>
      obtain rfl := Except.ok.inj h
      exact dec.gives_le _ _ _ _ hstep
  | case2 least i s e next hstep => cases h
  | case3 least i s more next hstep fetched ih => exact ih h

end Unpack

end Intake

/-! ## Accounts -/

/-- A content that is what the directory promised. -/
structure Span.Passes (span : Span) (content : Bytes) : Prop where
  size : content.length = span.size
  checksum : (Checksum.crc32 content).toNat = span.crc32

namespace Account

variable (a : Account) (span : Span) (content : Bytes)

theorem count_nil : a.count [] = a := rfl

theorem count_append (xs ys : Bytes) : (a.count xs).count ys = a.count (xs ++ ys) := by
  simp only [count, Checksum.update_append, List.length_append, Nat.add_assoc]

theorem delivered_count : (span.account.count content).delivered = content.length :=
  Nat.zero_add _

theorem verdict_of_size (h : content.length ≠ span.size) :
    ∃ text, (span.account.count content).verdict = some (.said .unexpectedEof text) :=
  ⟨_, if_pos (by rwa [delivered_count])⟩

theorem verdict_of_checksum (h : content.length = span.size)
    (hsum : (Checksum.crc32 content).toNat ≠ span.crc32) :
    ∃ text, (span.account.count content).verdict = some (.said .invalidData text) :=
  ⟨_, (if_neg (not_not_intro ((delivered_count span content).trans h))).trans (if_pos hsum)⟩

theorem verdict_eq_none_iff : (span.account.count content).verdict = none ↔ span.Passes content := by
  by_cases hsize : content.length = span.size
  · by_cases hsum : (Checksum.crc32 content).toNat = span.crc32
    · refine iff_of_true ?_ ⟨hsize, hsum⟩
      exact (if_neg (not_not_intro ((delivered_count span content).trans hsize))).trans
        (if_neg (not_not_intro hsum))
    · obtain ⟨text, hverdict⟩ := verdict_of_checksum span content hsize hsum
      exact iff_of_false (by rw [hverdict]; nofun) fun h => hsum h.checksum
  · obtain ⟨text, hverdict⟩ := verdict_of_size span content hsize
    exact iff_of_false (by rw [hverdict]; nofun) fun h => hsize h.size

end Account

/-! ## Reads in a row -/

/-- One read: the room for it, and how short its fetches fall. -/
structure Ask where
  room : Nat
  least : Nat → Nat

/-- What an answer hands out. -/
def handedOut : Except IoError Bytes → Bytes
  | .ok piece => piece
  | .error _ => []

/-- What some answers hand out, one after the other. -/
def received (answers : List (Except IoError Bytes)) : Bytes := answers.flatMap handedOut

/-- What the next read of an entry is answered where so much of a content was handed out. -/
structure Span.Answers (span : Span) (content got : Bytes) (next : Ask → Except IoError Bytes) :
    Prop where
  /-- The content is handed out in order and once. -/
  starts : got <+: content
  /-- Without room nothing is verified. -/
  idle : ∀ ask, ask.room = 0 → next ask = .ok []
  /-- With room there is more of the content, as long as there is any. -/
  goes_on : ∀ ask, ask.room ≠ 0 → got ≠ content → ∃ piece, next ask = .ok piece ∧
    piece ≠ [] ∧ piece.length ≤ ask.room ∧ got ++ piece <+: content
  /-- The end of the file is reported if all of the content was handed out and it is what the
  directory promised, and only then. -/
  end_iff : ∀ ask, ask.room ≠ 0 → (next ask = .ok [] ↔ got = content ∧ span.Passes content)
  /-- A content of another length is refused. -/
  short : ∀ ask, ask.room ≠ 0 → got = content → content.length ≠ span.size →
    ∃ text, next ask = .error (.said .unexpectedEof text)
  /-- One of the right length is refused for its checksum alone. -/
  corrupt : ∀ ask, ask.room ≠ 0 → got = content → content.length = span.size →
    (Checksum.crc32 content).toNat ≠ span.crc32 →
    ∃ text, next ask = .error (.said .invalidData text)

namespace EntryReader

variable {δ : Type} {dec : Decoder δ} {bytes : Bytes} {cursor : Nat} {r : EntryReader δ}

/-- The answers to reads in a row, and the cursor and the reader after them. -/
def readAll (dec : Decoder δ) (bytes : Bytes) (cursor : Nat) (r : EntryReader δ) :
    List Ask → List (Except IoError Bytes) × Nat × EntryReader δ
  | [] => ([], cursor, r)
  | ask :: asks =>
    let (answer, cursor, r) := r.read dec bytes cursor ask.room ask.least
    let (answers, cursor, r) := readAll dec bytes cursor r asks
    (answer :: answers, cursor, r)

theorem readAll_cons (ask : Ask) (asks : List Ask) :
    r.readAll dec bytes cursor (ask :: asks) =
      let after := r.read dec bytes cursor ask.room ask.least
      let rest := after.2.2.readAll dec bytes after.2.1 asks
      (after.1 :: rest.1, rest.2) :=
  rfl

section Read

variable {room : Nat} {least : Nat → Nat} {cursor' : Nat} {r' : EntryReader δ}

/-- A reader with a decoder hands out what that makes of the bytes it fetches. -/
theorem takePiece_of_unpack {remaining : Nat} {account : Account} {s s' : δ} {i' : Intake}
    {result : Except IoError Bytes}
    (h : (⟨cursor, remaining⟩ : Intake).unpack dec bytes room least s = (result, i', s')) :
    takePiece dec bytes cursor ⟨remaining, some s, account⟩ room least =
      (result, i'.cursor, ⟨i'.remaining, some s', account⟩) := by
  rw [takePiece]
  dsimp only
  rw [h]

theorem read_of_failure {e : IoError}
    (h : takePiece dec bytes cursor r room least = (.error e, cursor', r')) :
    r.read dec bytes cursor room least = (.error e, cursor', r') := by
  rw [read, h]

theorem read_of_piece {piece : Bytes}
    (h : takePiece dec bytes cursor r room least = (.ok piece, cursor', r'))
    (hpiece : ¬ (piece = [] ∧ room ≠ 0)) :
    r.read dec bytes cursor room least =
      (.ok piece, cursor', { r' with account := r'.account.count piece }) := by
  rw [read, h]
  exact if_neg hpiece

/-- The end of the file, which the account may refuse. -/
theorem read_of_end (h : takePiece dec bytes cursor r room least = (.ok [], cursor', r'))
    (hroom : room ≠ 0) :
    r.read dec bytes cursor room least =
      (match r'.account.verdict with
        | some e => .error e
        | none => .ok [], cursor', r') := by
  rw [read, h]
  refine (if_pos ⟨rfl, hroom⟩).trans ?_
  show (match r'.account.verdict with
    | some e => (_, cursor', r')
    | none => (_, cursor', r')) = _
  split <;> rfl

end Read

theorem account_takePiece (dec : Decoder δ) (bytes : Bytes) (cursor : Nat) (r : EntryReader δ)
    (room : Nat) (least : Nat → Nat) :
    (takePiece dec bytes cursor r room least).2.2.account = r.account := by
  unfold takePiece
  cases r.decoding <;> rfl

/-! ## Stored entries -/

/-- A stored entry stays one. -/
theorem decoding_read (h : r.decoding = none) (ask : Ask) :
    (r.read dec bytes cursor ask.room ask.least).2.2.decoding = none := by
  have htake : (takePiece dec bytes cursor r ask.room ask.least).2.2.decoding = none := by
    rw [takePiece, h]
  generalize htaken : takePiece dec bytes cursor r ask.room ask.least = taken at htake
  obtain ⟨result, cursor', r'⟩ := taken
  cases result with
  | error e => rwa [read_of_failure htaken]
  | ok piece =>
      by_cases hend : piece = [] ∧ ask.room ≠ 0
      · obtain ⟨rfl, hroom⟩ := hend
        rwa [read_of_end htaken hroom]
      · rwa [read_of_piece htaken hend]

theorem decoding_readAll (h : r.decoding = none) (asks : List Ask) :
    (r.readAll dec bytes cursor asks).2.2.decoding = none := by
  induction asks generalizing cursor r with
  | nil => exact h
  | cons ask asks ih => exact ih (decoding_read h ask)

/-- A read without room leaves a stored entry as it is. -/
theorem read_without_room (h : r.decoding = none) (least : Nat → Nat) :
    r.read dec bytes cursor 0 least = (.ok [], cursor, r) := by
  obtain ⟨remaining, decoding, account⟩ := r
  obtain rfl : decoding = none := h
  have hpiece : Intake.piece ⟨cursor, remaining⟩ bytes 0 (least 0) = [] := by
    rw [Intake.piece_eq_take, Nat.zero_min, List.take_zero]
  have htake : takePiece dec bytes cursor ⟨remaining, none, account⟩ 0 least =
      (.ok [], cursor, ⟨remaining, none, account⟩) := by
    rw [takePiece]
    dsimp only
    rw [hpiece]
    rfl
  exact read_of_piece htake fun hend => hend.2 rfl

/-! ## Any decoder -/

/-- The account after a read is that of the bytes before and those that it handed out, and an end of
the file is reported only if these are right. -/
theorem read_accounted (dec : Decoder δ) (bytes : Bytes) (cursor : Nat) {span : Span} {got : Bytes}
    (h : r.account = span.account.count got) (ask : Ask) :
    (r.read dec bytes cursor ask.room ask.least).2.2.account =
        span.account.count (got ++ handedOut (r.read dec bytes cursor ask.room ask.least).1) ∧
      (ask.room ≠ 0 → (r.read dec bytes cursor ask.room ask.least).1 = .ok [] →
        span.Passes got) := by
  have haccount := account_takePiece dec bytes cursor r ask.room ask.least
  generalize htake : takePiece dec bytes cursor r ask.room ask.least = taken at haccount
  obtain ⟨result, cursor', r'⟩ := taken
  rw [h] at haccount
  cases result with
  | error e =>
      rw [read_of_failure htake]
      exact ⟨haccount.trans (congrArg _ (List.append_nil got).symm), nofun⟩
  | ok piece =>
      by_cases hend : piece = [] ∧ ask.room ≠ 0
      · obtain ⟨rfl, hroom⟩ := hend
        rw [read_of_end htake hroom, haccount]
        generalize hverdict : (span.account.count got).verdict = verdict
        cases verdict with
        | some e => exact ⟨congrArg _ (List.append_nil got).symm, nofun⟩
        | none =>
            exact ⟨congrArg _ (List.append_nil got).symm, fun _ _ =>
              (Account.verdict_eq_none_iff span got).mp hverdict⟩
      · rw [read_of_piece htake hend]
        refine ⟨?_, fun hroom hnil => absurd ⟨Except.ok.inj hnil, hroom⟩ hend⟩
        rw [haccount, Account.count_append]
        rfl

theorem accounted_readAll (dec : Decoder δ) (bytes : Bytes) (cursor : Nat) {span : Span}
    {got : Bytes} (h : r.account = span.account.count got) (asks : List Ask) :
    (r.readAll dec bytes cursor asks).2.2.account =
      span.account.count (got ++ received (r.readAll dec bytes cursor asks).1) := by
  induction asks generalizing cursor r got with
  | nil => exact h.trans (congrArg _ (List.append_nil got).symm)
  | cons ask asks ih =>
      rw [readAll_cons]
      dsimp only
      rw [ih _ (read_accounted dec bytes cursor h ask).1, List.append_assoc]
      rfl

/-! ## A decoder that gives what it should -/

/-- What is still to come of an entry. -/
def Owes (Due : δ → Bytes → Bytes → Prop) (bytes : Bytes) (cursor : Nat) (r : EntryReader δ)
    (rest : Bytes) : Prop :=
  let left := Intake.left ⟨cursor, r.remaining⟩ bytes
  match r.decoding with
  | none => left = rest
  | some s => Due s left rest

/-- In the middle of an entry: so much was handed out and accounted for, and the rest is still to
come. -/
structure Amid (Due : δ → Bytes → Bytes → Prop) (span : Span) (bytes got rest : Bytes)
    (cursor : Nat) (r : EntryReader δ) : Prop where
  account : r.account = span.account.count got
  owes : r.Owes Due bytes cursor rest

variable {Due : δ → Bytes → Bytes → Prop} {span : Span} {got rest : Bytes}

theorem takePiece_of_owes (hdec : dec.Meets Due) (h : r.Owes Due bytes cursor rest) (ask : Ask) :
    ∃ piece rest' cursor' r',
      takePiece dec bytes cursor r ask.room ask.least = (.ok piece, cursor', r') ∧
      rest = piece ++ rest' ∧ piece.length ≤ ask.room ∧
      (ask.room ≠ 0 → piece = [] → rest = []) ∧ r'.Owes Due bytes cursor' rest' := by
  obtain ⟨remaining, decoding, account⟩ := r
  cases decoding with
  | none =>
      obtain rfl : Intake.left ⟨cursor, remaining⟩ bytes = rest := h
      obtain ⟨rest', hrest⟩ := Intake.piece_prefix ⟨cursor, remaining⟩ bytes ask.room (ask.least 0)
      refine ⟨_, rest', _, _, rfl, hrest.symm, Intake.length_piece_le_room .., fun hroom hnil => ?_,
        ?_⟩
      · exact Intake.left_eq_nil hroom hnil
      · show Intake.left (Intake.past ⟨cursor, remaining⟩ _) bytes = rest'
        rw [Intake.left_past, ← hrest, List.drop_left]
  | some s =>
      obtain ⟨piece, i', s', hunpack, ⟨rest', rfl⟩, hnil, hdue⟩ :=
        Intake.unpack_delivers hdec ask.room ask.least h
      have hlength : piece.length ≤ ask.room :=
        Intake.length_unpack_le (congrArg Prod.fst hunpack)
      rw [List.drop_left] at hdue
      exact ⟨piece, rest', _, _, takePiece_of_unpack hunpack, rfl, hlength, hnil, hdue⟩

/-- One read in the middle of an entry. -/
theorem Amid.read (hdec : dec.Meets Due) (h : Amid Due span bytes got rest cursor r) (ask : Ask) :
    ∃ rest', rest = handedOut (r.read dec bytes cursor ask.room ask.least).1 ++ rest' ∧
      Amid Due span bytes (got ++ handedOut (r.read dec bytes cursor ask.room ask.least).1) rest'
        (r.read dec bytes cursor ask.room ask.least).2.1
        (r.read dec bytes cursor ask.room ask.least).2.2 := by
  obtain ⟨piece, rest', cursor', r', htake, hrest, -, hnil, howes⟩ :=
    takePiece_of_owes hdec h.owes ask
  have haccount : r'.account = span.account.count got := by
    rw [← h.account, ← account_takePiece dec bytes cursor r ask.room ask.least, htake]
  by_cases hend : piece = [] ∧ ask.room ≠ 0
  · obtain ⟨rfl, hroom⟩ := hend
    refine ⟨rest', ?_⟩
    have hnothing : handedOut (r.read dec bytes cursor ask.room ask.least).1 = [] := by
      rw [read_of_end htake hroom]
      cases r'.account.verdict <;> rfl
    rw [hnothing, List.append_nil, read_of_end htake hroom]
    exact ⟨hrest, haccount, howes⟩
  · rw [read_of_piece htake hend]
    refine ⟨rest', hrest, ?_, howes⟩
    show r'.account.count piece = _
    rw [haccount, Account.count_append]
    rfl

/-- What that read is answered. -/
theorem Amid.answers (hdec : dec.Meets Due) (h : Amid Due span bytes got rest cursor r) :
    span.Answers (got ++ rest) got fun ask => (r.read dec bytes cursor ask.room ask.least).1 := by
  -- Without room or with something to hand out, the account is not asked.
  have hgoes (ask : Ask) (hask : ¬ (ask.room ≠ 0 ∧ rest = [])) :
      ∃ piece, (r.read dec bytes cursor ask.room ask.least).1 = .ok piece ∧ piece <+: rest ∧
        piece.length ≤ ask.room ∧ (ask.room ≠ 0 → piece ≠ []) := by
    obtain ⟨piece, rest', cursor', r', htake, hrest, hlength, hnil, -⟩ :=
      takePiece_of_owes hdec h.owes ask
    have hpiece : ¬ (piece = [] ∧ ask.room ≠ 0) := fun ⟨hpiece, hroom⟩ =>
      hask ⟨hroom, hnil hroom hpiece⟩
    exact ⟨piece, by rw [read_of_piece htake hpiece], ⟨rest', hrest.symm⟩, hlength,
      fun hroom hpiece' => hpiece ⟨hpiece', hroom⟩⟩
  have hends (ask : Ask) (hroom : ask.room ≠ 0) (hrest : rest = []) :
      (r.read dec bytes cursor ask.room ask.least).1 =
        match (span.account.count got).verdict with
        | some e => .error e
        | none => .ok [] := by
    obtain ⟨piece, rest', cursor', r', htake, heq, -⟩ := takePiece_of_owes hdec h.owes ask
    obtain ⟨rfl, -⟩ := List.append_eq_nil_iff.mp (heq.symm.trans hrest)
    rw [read_of_end htake hroom, ← h.account,
      ← account_takePiece dec bytes cursor r ask.room ask.least, htake]
  have hrest : got = got ++ rest → rest = [] := fun heq => List.append_right_eq_self.mp heq.symm
  exact {
    starts := List.prefix_append got rest
    idle := fun ask hroom => by
      obtain ⟨piece, hread, -, hlength, -⟩ := hgoes ask fun hask => hask.1 hroom
      rw [hroom, Nat.le_zero, List.length_eq_zero_iff] at hlength
      rw [hread, hlength]
    goes_on := fun ask hroom hmore => by
      obtain ⟨piece, hread, hprefix, hlength, hne⟩ := hgoes ask fun hask =>
        hmore (by rw [hask.2, List.append_nil])
      exact ⟨piece, hread, hne hroom, hlength, (List.prefix_append_right_inj got).mpr hprefix⟩
    end_iff := fun ask hroom => by
      by_cases hnil : rest = []
      · subst hnil
        rw [List.append_nil, hends ask hroom rfl, ← Account.verdict_eq_none_iff]
        cases (span.account.count got).verdict with
        | some e => exact iff_of_false nofun fun h => nomatch h.2
        | none => exact iff_of_true rfl ⟨rfl, rfl⟩
      · obtain ⟨piece, hread, -, -, hne⟩ := hgoes ask fun hask => hnil hask.2
        refine iff_of_false (fun h => ?_) fun h => hnil (hrest h.1)
        rw [hread] at h
        exact hne hroom (Except.ok.inj h)
    short := fun ask hroom heq hsize => by
      obtain ⟨text, hverdict⟩ := Account.verdict_of_size span got (heq ▸ hsize)
      exact ⟨text, by rw [hends ask hroom (hrest heq), hverdict]⟩
    corrupt := fun ask hroom heq hsize hsum => by
      rw [← heq] at hsize hsum
      obtain ⟨text, hverdict⟩ := Account.verdict_of_checksum span got hsize hsum
      exact ⟨text, by rw [hends ask hroom (hrest heq), hverdict]⟩ }

/-- Any number of reads. -/
theorem Amid.readAll (hdec : dec.Meets Due) (h : Amid Due span bytes got rest cursor r)
    (asks : List Ask) :
    ∃ rest', rest = received (r.readAll dec bytes cursor asks).1 ++ rest' ∧
      Amid Due span bytes (got ++ received (r.readAll dec bytes cursor asks).1) rest'
        (r.readAll dec bytes cursor asks).2.1 (r.readAll dec bytes cursor asks).2.2 := by
  induction asks generalizing cursor r got rest with
  | nil => exact ⟨rest, rfl, (List.append_nil got).symm ▸ h⟩
  | cons ask asks ih =>
      obtain ⟨rest', rfl, hread⟩ := h.read hdec ask
      obtain ⟨rest'', rfl, hall⟩ := ih hread
      rw [List.append_assoc] at hall
      exact ⟨rest'', (List.append_assoc ..).symm, hall⟩

end EntryReader

end Zip

end AssetUnpack
