import AssetUnpack.Proofs.Zip.Whole
import AssetUnpack.Zip.Session

/-!
# Who reads a package

The one cursor of a package is lent to whoever opens an entry, and moved by nobody
else until it is given back. That a package in use is `Orderly`, with one live reader
and the cursor lent or with none and the cursor free, is kept by everything a client
can do (`Orderly.perform`), so it holds however a package is used
(`Orderly.performAll`).

From it follows what a client may rely on, `Disciplined`. Its last part is that the
others cannot be noticed: while a reader is live, all that is done to the package
other than through it is refused, so it answers what it would answer to somebody who
is alone with the package (`answers_of_live`), and even what it would answer if the
package were nothing but the data of its entry (`EntryReader.answers_of_same`).
-/

namespace AssetUnpack.Zip

/-! ## Readers see nothing but their entry -/

section Alone

variable {δ : Type} {bytes bytes' : Bytes}

/-- Two intakes of the same bytes. -/
structure Intake.Same (bytes bytes' : Bytes) (i i' : Intake) : Prop where
  remaining : i.remaining = i'.remaining
  left : i.left bytes = i'.left bytes'

theorem Intake.Same.piece {i i' : Intake} (h : i.Same bytes bytes' i') (room least : Nat) :
    i.piece bytes room least = i'.piece bytes' room least := by
  rw [piece_eq_take, piece_eq_take, h.left]

theorem Intake.Same.past {i i' : Intake} (h : i.Same bytes bytes' i') (piece : Bytes) :
    (i.past piece).Same bytes bytes' (i'.past piece) where
  remaining := congrArg (· - piece.length) h.remaining
  left := by rw [left_past, left_past, h.left]

theorem Intake.Same.unpack {i i' : Intake} (h : i.Same bytes bytes' i') (dec : Decoder δ)
    (room : Nat) (least : Nat → Nat) (s : δ) :
    ∃ result j j' s', i.unpack dec bytes room least s = (result, j, s') ∧
      i'.unpack dec bytes' room least s = (result, j', s') ∧ j.Same bytes bytes' j' := by
  fun_induction i.unpack dec bytes room least s generalizing i' with
  | case1 least i s piece next hstep =>
      exact ⟨_, _, _, _, rfl, unpack_of_gives hstep, h⟩
  | case2 least i s e next hstep =>
      exact ⟨_, _, _, _, rfl, unpack_of_fails hstep, h⟩
  | case3 least i s more next hstep piece =>
      rename_i ih
      rw [unpack_of_wants (i := i') hstep, ← h.piece]
      exact ih (h.past _)

namespace EntryReader

variable {cursor cursor' : Nat} {r : EntryReader δ}

theorem takePiece_of_same (dec : Decoder δ)
    (h : Intake.Same bytes bytes' ⟨cursor, r.remaining⟩ ⟨cursor', r.remaining⟩) (ask : Ask) :
    ∃ result c c' r', takePiece dec bytes cursor r ask.room ask.least = (result, c, r') ∧
      takePiece dec bytes' cursor' r ask.room ask.least = (result, c', r') ∧
      Intake.Same bytes bytes' ⟨c, r'.remaining⟩ ⟨c', r'.remaining⟩ := by
  obtain ⟨remaining, decoding, account⟩ := r
  cases decoding with
  | none =>
      have hpiece := h.piece ask.room (ask.least 0)
      refine ⟨_, _, _, _, rfl, ?_, h.past _⟩
      rw [hpiece]
      rfl
  | some s =>
      obtain ⟨result, ⟨c, left⟩, ⟨c', left'⟩, s', hunpack, hunpack', hsame⟩ :=
        h.unpack dec ask.room ask.least s
      obtain rfl : left = left' := hsame.remaining
      exact ⟨result, c, c', ⟨left, some s', account⟩, takePiece_of_unpack hunpack,
        takePiece_of_unpack hunpack', hsame⟩

/-- Readers of the same bytes answer the same. -/
theorem read_of_same (dec : Decoder δ)
    (h : Intake.Same bytes bytes' ⟨cursor, r.remaining⟩ ⟨cursor', r.remaining⟩) (ask : Ask) :
    ∃ answer c c' r', r.read dec bytes cursor ask.room ask.least = (answer, c, r') ∧
      r.read dec bytes' cursor' ask.room ask.least = (answer, c', r') ∧
      Intake.Same bytes bytes' ⟨c, r'.remaining⟩ ⟨c', r'.remaining⟩ := by
  obtain ⟨result, c, c', r', htake, htake', hsame⟩ := takePiece_of_same dec h ask
  cases result with
  | error e => exact ⟨_, _, _, _, read_of_failure htake, read_of_failure htake', hsame⟩
  | ok piece =>
      by_cases hend : piece = [] ∧ ask.room ≠ 0
      · obtain ⟨rfl, hroom⟩ := hend
        exact ⟨_, _, _, _, read_of_end htake hroom, read_of_end htake' hroom, hsame⟩
      · exact ⟨_, _, _, _, read_of_piece htake hend, read_of_piece htake' hend, hsame⟩

theorem answers_of_same (dec : Decoder δ)
    (h : Intake.Same bytes bytes' ⟨cursor, r.remaining⟩ ⟨cursor', r.remaining⟩)
    (asks : List Ask) :
    (r.readAll dec bytes cursor asks).1 = (r.readAll dec bytes' cursor' asks).1 := by
  induction asks generalizing cursor cursor' r with
  | nil => rfl
  | cons ask asks ih =>
      obtain ⟨answer, c, c', r', hread, hread', hsame⟩ := read_of_same dec h ask
      rw [readAll_cons, readAll_cons, hread, hread']
      exact congrArg (answer :: ·) (ih hsame)

end EntryReader

end Alone

namespace Session

variable {δ : Type} {dec : Decoder δ} {p : Package} {bytes : Bytes} {s : Session δ}

/-! ## One reader at a time -/

/-- A package in use with so many readers: one, who has the cursor, or none. -/
structure Orderly (p : Package) (bytes : Bytes) (s : Session δ) : Prop where
  package : s.package = p
  bytes_eq : s.bytes = bytes
  lending : s.lent = false ∧ s.readers = .empty ∨
    ∃ number r, s.lent = true ∧ s.readers = ⟨[(number, r)]⟩

theorem orderly_start (p : Package) (bytes : Bytes) : Orderly p bytes (start p bytes : Session δ) :=
  ⟨rfl, rfl, .inl ⟨rfl, rfl⟩⟩

/-- The package with a new reader of an entry. -/
def withReader (dec : Decoder δ) (s : Session δ) (span : Span) (packing : Packing) : Session δ :=
  { s.lend span.start with
    readers := s.readers.put s.made (span.reader dec packing)
    made := s.made + 1 }

/-- The three ways to open an entry: to fail before the cursor is lent, to fail after that, and to
get a reader. -/
theorem openEntry_cases (dec : Decoder δ) (s : Session δ) (path : AssetPath) :
    (∃ e, s.openEntry dec path = (.error e, s) ∧
      ∀ span, s.package.tree.leafAt path = .ok span → s.lent = true) ∨
    (s.lent = false ∧ ∃ span, s.package.tree.leafAt path = .ok span ∧
      Packing.ofCode? span.methodCode = none ∧
      s.openEntry dec path =
        (.error (unsupportedError path span.methodCode), { s with cursor := span.start })) ∨
    (s.lent = false ∧ ∃ span packing, s.package.tree.leafAt path = .ok span ∧
      Packing.ofCode? span.methodCode = some packing ∧
      s.openEntry dec path = (.ok s.made, s.withReader dec span packing)) := by
  rw [openEntry]
  cases hleaf : s.package.tree.leafAt path with
  | error e => exact .inl ⟨e, rfl, nofun⟩
  | ok span =>
      dsimp only
      by_cases hlent : s.lent = true
      · exact .inl ⟨busyError, if_pos hlent, fun _ _ => hlent⟩
      · rw [if_neg hlent]
        rw [Bool.not_eq_true] at hlent
        refine .inr ?_
        cases hpacking : Packing.ofCode? span.methodCode with
        | none =>
            refine .inl ⟨hlent, span, rfl, hpacking, ?_⟩
            -- The cursor was moved before the method was looked at, and is given back there.
            show (_, (⟨_, _, _, false, _, _⟩ : Session δ)) = (_, ⟨_, _, _, s.lent, _, _⟩)
            rw [hlent]
            rfl
        | some packing => exact .inr ⟨hlent, span, packing, rfl, hpacking, rfl⟩

/-- While the cursor is lent, no entry can be opened, and trying changes nothing. -/
theorem openEntry_of_lent (dec : Decoder δ) (h : s.lent = true) (path : AssetPath) :
    ∃ e, s.openEntry dec path = (.error e, s) := by
  rcases openEntry_cases dec s path with ⟨e, hopen, -⟩ | ⟨hfree, -⟩ | ⟨hfree, -⟩
  · exact ⟨e, hopen⟩
  · rw [h] at hfree
    cases hfree
  · rw [h] at hfree
    cases hfree

section Readers

variable {number : Nat} {r : EntryReader δ}

theorem perform_read (h : s.readers.get? number = some r) (ask : Ask) :
    s.perform dec (.read number ask.room ask.least) =
      let after := r.read dec s.bytes s.cursor ask.room ask.least
      (.read after.1,
        { s with cursor := after.2.1, readers := s.readers.put number after.2.2 }) := by
  rw [perform, h]

theorem perform_drop (h : s.readers.get? number = some r) :
    s.perform dec (.drop number) =
      (.dropped, { s.giveBack with readers := s.readers.eraseWhere (· = number) }) := by
  rw [perform, h]

/-- Nobody can use a reader that is not there. -/
theorem perform_of_none (h : s.readers.get? number = none) :
    (∀ room least, s.perform dec (.read number room least) = (.noReader, s)) ∧
      s.perform dec (.drop number) = (.noReader, s) := by
  simp only [perform, h, implies_true, and_self]

theorem get?_single (number other : Nat) (r : EntryReader δ) :
    (⟨[(number, r)]⟩ : Table Nat (EntryReader δ)).get? other =
      if number = other then some r else none :=
  rfl

theorem put_single (number : Nat) (r r' : EntryReader δ) :
    (⟨[(number, r)]⟩ : Table Nat (EntryReader δ)).put number r' = ⟨[(number, r')]⟩ := by
  rw [Table.put, Table.putIn, if_pos rfl]

theorem eraseWhere_single (number : Nat) (r : EntryReader δ) :
    (⟨[(number, r)]⟩ : Table Nat (EntryReader δ)).eraseWhere (· = number) = .empty := by
  simp [Table.eraseWhere, Table.empty]

/-- The only reader there is. -/
theorem Orderly.single (h : s.Orderly p bytes) (hget : s.readers.get? number = some r) :
    s.lent = true ∧ s.readers = ⟨[(number, r)]⟩ := by
  obtain ⟨-, hreaders⟩ | ⟨number', r', hlent, hreaders⟩ := h.lending
  · rw [hreaders] at hget
    cases hget
  · rw [hreaders, get?_single] at hget
    split at hget
    · next heq =>
        subst heq
        obtain rfl := Option.some.inj hget
        exact ⟨hlent, hreaders⟩
    · cases hget

end Readers

/-- Where no reader was, the new one is the only one. -/
theorem Orderly.readers_withReader (h : s.Orderly p bytes) (hlent : s.lent = false)
    (dec : Decoder δ) (span : Span) (packing : Packing) :
    (s.withReader dec span packing).readers = ⟨[(s.made, span.reader dec packing)]⟩ := by
  obtain ⟨-, hempty⟩ | ⟨_, _, hlent', -⟩ := h.lending
  · show s.readers.put _ _ = _
    rw [hempty]
    rfl
  · rw [hlent] at hlent'
    cases hlent'

/-- Nothing that a client can do makes a package disorderly. -/
theorem Orderly.perform (h : s.Orderly p bytes) (use : Use) :
    (s.perform dec use).2.Orderly p bytes := by
  cases use with
  | openEntry path =>
      rcases openEntry_cases dec s path with ⟨e, hopen, -⟩ | ⟨-, span, -, -, hopen⟩ |
        ⟨hlent, span, packing, -, -, hopen⟩
      · rwa [Session.perform, hopen]
      · rw [Session.perform, hopen]
        exact ⟨h.package, h.bytes_eq, h.lending⟩
      · rw [Session.perform, hopen]
        exact ⟨h.package, h.bytes_eq, .inr ⟨s.made, span.reader dec packing, rfl,
          h.readers_withReader hlent dec span packing⟩⟩
  | read number room least =>
      cases hget : s.readers.get? number with
      | none => rwa [(perform_of_none hget).1]
      | some r =>
          obtain ⟨hlent, hreaders⟩ := h.single hget
          rw [perform_read hget ⟨room, least⟩, hreaders]
          dsimp only
          rw [put_single]
          exact ⟨h.package, h.bytes_eq, .inr ⟨number, _, hlent, rfl⟩⟩
  | drop number =>
      cases hget : s.readers.get? number with
      | none => rwa [(perform_of_none hget).2]
      | some r =>
          obtain ⟨hlent, hreaders⟩ := h.single hget
          rw [perform_drop hget, hreaders, eraseWhere_single]
          exact ⟨h.package, h.bytes_eq, .inl ⟨rfl, rfl⟩⟩

theorem Orderly.performAll (h : s.Orderly p bytes) (uses : List Use) :
    (s.performAll dec uses).2.Orderly p bytes := by
  induction uses generalizing s with
  | nil => exact h
  | cons use uses ih => exact ih (h.perform use)

/-! ## What a reader answers -/

/-- What uses ask of a reader. -/
def asksOf (number : Nat) (uses : List Use) : List Ask :=
  uses.filterMap fun
    | .read other room least => if other = number then some ⟨room, least⟩ else none
    | _ => none

/-- What a reader answers to uses. -/
def answersOf (number : Nat) (uses : List Use) (replies : List Reply) :
    List (Except IoError Bytes) :=
  (uses.zip replies).filterMap fun
    | (.read other _ _, .read answer) => if other = number then some answer else none
    | _ => none

theorem performAll_cons (use : Use) (uses : List Use) :
    s.performAll dec (use :: uses) =
      let after := s.perform dec use
      let rest := after.2.performAll dec uses
      (after.1 :: rest.1, rest.2) :=
  rfl

/-- As long as a reader is live, it answers as if there were nobody else. -/
theorem answers_of_live {number : Nat} {r : EntryReader δ} (hlent : s.lent = true)
    (hreaders : s.readers = ⟨[(number, r)]⟩) (uses : List Use) (hlive : Use.drop number ∉ uses) :
    answersOf number uses (s.performAll dec uses).1 =
      (r.readAll dec s.bytes s.cursor (asksOf number uses)).1 := by
  -- Only reads of the reader itself change it or the cursor; all else is refused.
  induction uses generalizing s r with
  | nil => rfl
  | cons use uses ih =>
      obtain ⟨hnow, hlater⟩ := List.ne_and_not_mem_of_not_mem_cons hlive
      have hother {other : Nat} (hne : other ≠ number) : s.readers.get? other = none := by
        rw [hreaders, get?_single, if_neg hne.symm]
      rw [performAll_cons]
      cases use with
      | openEntry path =>
          obtain ⟨e, hopen⟩ := openEntry_of_lent dec hlent path
          rw [perform, hopen]
          exact ih hlent hreaders hlater
      | drop other =>
          have hne : other ≠ number := fun heq => hnow (heq ▸ rfl)
          rw [(perform_of_none (hother hne)).2]
          exact ih hlent hreaders hlater
      | read other room least =>
          by_cases heq : other = number
          · subst heq
            have hget : s.readers.get? other = some r := by
              rw [hreaders, get?_single, if_pos rfl]
            have hasks : asksOf other (.read other room least :: uses) =
                ⟨room, least⟩ :: asksOf other uses := List.filterMap_cons_some (if_pos rfl)
            rw [perform_read hget ⟨room, least⟩, hasks, EntryReader.readAll_cons, hreaders]
            generalize r.read dec s.bytes s.cursor room least = after
            obtain ⟨answer, cursor, r'⟩ := after
            dsimp only
            rw [put_single]
            have hrest := ih (s := { s with cursor, readers := ⟨[(other, r')]⟩ }) hlent rfl hlater
            have hanswers (replies : List Reply) :
                answersOf other (.read other room least :: uses) (.read answer :: replies) =
                  answer :: answersOf other uses replies := List.filterMap_cons_some (if_pos rfl)
            rw [hanswers, hrest]
          · have hasks : asksOf number (.read other room least :: uses) = asksOf number uses :=
              List.filterMap_cons_none (if_neg heq)
            rw [(perform_of_none (hother heq)).1, hasks]
            exact ih hlent hreaders hlater

/-! ## What clients may rely on -/

/-- What clients of a package may rely on at some moment. -/
structure Disciplined (dec : Decoder δ) (p : Package) (bytes : Bytes) (s : Session δ) : Prop where
  /-- At most one reader is live. -/
  one : s.readers.size ≤ 1
  /-- While one is, no entry can be opened, and trying changes nothing. -/
  busy : s.readers.size ≠ 0 → ∀ path, ∃ e, s.openEntry dec path = (.error e, s)
  /-- A failure to open an entry, whatever its reason, makes no reader and takes none away. -/
  failed : ∀ path e s', s.openEntry dec path = (.error e, s') → s'.readers = s.readers
  /-- Once the reader is dropped, none is live. -/
  dropped : ∀ number, s.readers.get? number ≠ none →
    (s.perform dec (.drop number)).2.readers.size = 0
  /-- While none is, every file that can be unpacked can be opened. -/
  free : s.readers.size = 0 → ∀ path span packing, p.tree.leafAt path = .ok span →
    Packing.ofCode? span.methodCode = some packing →
    ∃ s', s.openEntry dec path = (.ok s.made, s') ∧
      s'.readers.get? s.made = some (span.reader dec packing)
  /-- A reader answers, whatever else is done to the package, what it would answer to somebody who
  reads its entry from the first byte and does nothing else. No other byte of the package matters,
  and what is handed out is the beginning of what the bytes of the entry come to. -/
  own : ∀ path number s', s.openEntry dec path = (.ok number, s') →
    ∃ span packing, p.tree.leafAt path = .ok span ∧
      Packing.ofCode? span.methodCode = some packing ∧
      ∀ uses, Use.drop number ∉ uses →
        answersOf number uses (s'.performAll dec uses).1 =
            (span.reads dec packing bytes (asksOf number uses)).1 ∧
          answersOf number uses (s'.performAll dec uses).1 =
            ((span.reader dec packing).readAll dec (fetch bytes span.start span.compressedSize) 0
              (asksOf number uses)).1 ∧
          ∀ content, span.ComesTo dec packing bytes content →
            received (answersOf number uses (s'.performAll dec uses).1) <+: content

/-- The bytes of an entry alone are the same bytes. -/
theorem same_alone (bytes : Bytes) (span : Span) (packing : Packing) :
    Intake.Same bytes (fetch bytes span.start span.compressedSize)
      ⟨span.start, (span.reader dec packing).remaining⟩
      ⟨0, (span.reader dec packing).remaining⟩ where
  remaining := rfl
  left := by
    have hremaining : (span.reader dec packing).remaining = span.compressedSize := by
      cases packing <;> rfl
    rw [Intake.left, Intake.left, hremaining, fetch, fetch, List.drop_zero, List.take_take,
      Nat.min_self]

theorem Orderly.size (h : s.Orderly p bytes) :
    s.lent = false ∧ s.readers.size = 0 ∨ s.lent = true ∧ s.readers.size = 1 := by
  obtain ⟨hlent, hreaders⟩ | ⟨number, r, hlent, hreaders⟩ := h.lending
  · exact .inl ⟨hlent, congrArg Table.size hreaders⟩
  · exact .inr ⟨hlent, congrArg Table.size hreaders⟩

/-- A reader that was opened, whatever is done to the package while it is live. -/
theorem Orderly.own (h : s.Orderly p bytes) {path : AssetPath} {number : Nat} {s' : Session δ}
    (hopened : s.openEntry dec path = (.ok number, s')) :
    ∃ span packing, p.tree.leafAt path = .ok span ∧
      Packing.ofCode? span.methodCode = some packing ∧
      ∀ uses, Use.drop number ∉ uses →
        answersOf number uses (s'.performAll dec uses).1 =
          (span.reads dec packing bytes (asksOf number uses)).1 := by
  rcases openEntry_cases dec s path with ⟨e, hopen, -⟩ | ⟨-, span, -, -, hopen⟩ |
    ⟨hlent, span, packing, hleaf, hpacking, hopen⟩
  · rw [hopened] at hopen
    cases hopen
  · rw [hopened] at hopen
    cases hopen
  · rw [hopened] at hopen
    obtain ⟨hnumber, rfl⟩ := Prod.mk.inj hopen
    obtain rfl := Except.ok.inj hnumber
    have hreaders := h.readers_withReader hlent dec span packing
    refine ⟨span, packing, h.package ▸ hleaf, hpacking, fun uses hlive => ?_⟩
    rw [answers_of_live rfl hreaders uses hlive]
    show (EntryReader.readAll dec s.bytes span.start _ _).1 = _
    rw [h.bytes_eq]
    rfl

end Session

end AssetUnpack.Zip
