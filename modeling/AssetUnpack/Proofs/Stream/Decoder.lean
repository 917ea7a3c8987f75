import AssetUnpack.Deflate
import AssetUnpack.Proofs.Stream.Copy

/-!
# Decoders that give what they should

A decoder `Meets` a relation between its states, the packed bytes still to come in and
the content still to go out, if each of its steps keeps to it; then whoever asks it for
bytes gets the content, whatever the room for them and however the packed bytes are
handed over. That a particular decoder does so is for its own theory to show.

Here it is shown of the decoder of deflated streams (`decoder_delivers`), which gathers
all packed bytes and then hands out what they decode to. That is a `Straight` reader,
one that reports the end of the file nowhere but at its end.
-/

namespace AssetUnpack

/-! ## Decoders that give what they should -/

/-- In every state of a decoder in which packed bytes and content are `Due`, the first
to come in and the second to go out, the next step keeps to that. -/
structure Decoder.Meets {δ : Type} (dec : Decoder δ) (Due : δ → Bytes → Bytes → Prop) :
    Prop where
  /-- It gives the beginning of the content, and nothing only without room or at its
  end. -/
  gives : ∀ {s room piece next packed content}, Due s packed content →
    dec.step s room = .gives piece next →
    piece <+: content ∧ (room ≠ 0 → piece = [] → content = []) ∧
      Due next packed (content.drop piece.length)
  unfailing : ∀ {s room e next packed content}, Due s packed content →
    dec.step s room ≠ .fails e next
  /-- It takes as many of the packed bytes as it is handed. -/
  wants : ∀ {s room more next packed content}, Due s packed content →
    dec.step s room = .wants more next → ∀ piece, piece <+: packed →
    piece.length ≤ more + 1 → (piece = [] → packed = []) →
    Due (next piece) (packed.drop piece.length) content

/-- A decoder that turns packed bytes into a content, however they are handed to it. -/
def Decoder.Delivers {δ : Type} (dec : Decoder δ) (packed content : Bytes) : Prop :=
  ∃ Due, dec.Meets Due ∧ Due dec.start packed content

/-! ## Straight readers -/

/-- A supply that lasts until it is used up, and that is no interruption. -/
def Supply.Straight : Supply → Prop
  | .data _ most => most = none
  | .fault e | .doomed _ e => e.isInterrupted = false
  | .stop => False

namespace Reader

/-- A reader that reports the end of the file only at its end, and is never interrupted. -/
def Straight (r : Reader) : Prop := ∀ supply ∈ r, supply.Straight

theorem straight_ofBytes (bs : Bytes) : (ofBytes bs).Straight := by
  simp [Straight, ofBytes, Supply.Straight]

variable {room : Nat} {r rest : Reader}

/-- A piece of a straight reader is a piece also where others come behind it. -/
theorem Straight.read_piece (h : r.Straight) (tail : Reader) {piece : Bytes}
    (hread : read room r = (.ok piece, rest)) (hne : piece ≠ []) :
    read room (r ++ tail) = (.ok piece, rest ++ tail) ∧ rest.Straight ∧
      (drain r).2 = (drain rest).2 ∧
      ((drain r).2 = none → (drain r).1 = piece ++ (drain rest).1) := by
  induction r with
  | nil =>
      cases hread
      exact absurd rfl hne
  | cons supply r ih =>
      obtain ⟨hsupply, hr⟩ := List.forall_mem_cons.mp h
      cases supply with
      | stop => exact hsupply.elim
      | fault e => cases hread
      | data bs most =>
          obtain rfl : most = none := hsupply
          cases bs with
          | nil => exact ih hr hread
          | cons b bs =>
              simp only [read, List.isEmpty_cons, Bool.false_eq_true, if_false,
                Option.getD_none, Nat.min_self, List.cons_append] at hread ⊢
              cases hread
              refine ⟨rfl, List.forall_mem_cons.mpr ⟨rfl, hr⟩, ?_⟩
              cases hleft : List.drop room (b :: bs) with
              | nil =>
                  rw [List.drop_eq_nil_iff] at hleft
                  rw [List.take_of_length_le hleft]
                  exact ⟨rfl, fun _ => rfl⟩
              | cons c cs =>
                  refine ⟨rfl, fun _ => ?_⟩
                  show (b :: bs) ++ (drain r).1 = _ ++ ((c :: cs) ++ (drain r).1)
                  rw [← hleft, ← List.append_assoc, List.take_append_drop]
      | doomed bs e =>
          simp only [read, List.cons_append] at hread ⊢
          split at hread
          · next hmore =>
              cases hread
              rw [if_pos hmore]
              refine ⟨rfl, List.forall_mem_cons.mpr ⟨hsupply, hr⟩, rfl, fun hnone => ?_⟩
              have he : e.isInterrupted = false := hsupply
              simp [drain, he] at hnone
          · cases hread

/-- The end of a straight reader. -/
theorem Straight.read_end (h : r.Straight) (hroom : room ≠ 0) (tail : Reader)
    (hread : read room r = (.ok [], rest)) :
    rest = [] ∧ drain r = ([], none) ∧ read room (r ++ tail) = read room tail := by
  induction r with
  | nil =>
      cases hread
      exact ⟨rfl, rfl, rfl⟩
  | cons supply r ih =>
      obtain ⟨hsupply, hr⟩ := List.forall_mem_cons.mp h
      cases supply with
      | stop => exact hsupply.elim
      | fault e => cases hread
      | data bs most =>
          obtain rfl : most = none := hsupply
          cases bs with
          | nil => exact ih hr hread
          | cons b bs =>
              obtain ⟨n, rfl⟩ := Nat.exists_eq_succ_of_ne_zero hroom
              simp [read] at hread
      | doomed bs e =>
          simp only [read] at hread
          split at hread
          · next hmore =>
              obtain ⟨n, rfl⟩ := Nat.exists_eq_succ_of_ne_zero hroom
              rw [Bytes.atLeast_iff] at hmore
              have hnil : bs.take (n + 1) = [] := Except.ok.inj (congrArg Prod.fst hread)
              rw [List.take_eq_nil_iff] at hnil
              simp_all
          · cases hread

/-- A failure of a straight reader is the one that it comes to. -/
theorem Straight.read_failure (h : r.Straight) (tail : Reader) {e : IoError}
    (hread : read room r = (.error e, rest)) :
    (read room (r ++ tail)).1 = .error e ∧ e.isInterrupted = false ∧ (drain r).2 = some e := by
  induction r with
  | nil => cases hread
  | cons supply r ih =>
      obtain ⟨hsupply, hr⟩ := List.forall_mem_cons.mp h
      cases supply with
      | stop => exact hsupply.elim
      | fault e =>
          cases hread
          have he : e.isInterrupted = false := hsupply
          exact ⟨rfl, he, by simp [drain, he]⟩
      | data bs most =>
          cases bs with
          | nil => exact ih hr hread
          | cons b bs => cases hread
      | doomed bs e =>
          simp only [read, List.cons_append] at hread ⊢
          split at hread
          · cases hread
          · next hfew =>
              cases hread
              rw [if_neg hfew]
              have he : e.isInterrupted = false := hsupply
              exact ⟨rfl, he, by simp [drain, he]⟩

end Reader

/-! ## Deflated streams -/

namespace Deflate

theorem Decoded.reader_straight (d : Decoded) (ahead : Nat) : (d.reader ahead).Straight := by
  unfold Decoded.reader
  cases d.fault? with
  | none => simp [Reader.Straight, Supply.Straight]
  | some fault =>
      cases fault <;>
        simp [Reader.Straight, Supply.Straight, IoError.isInterrupted, IoError.kind, truncatedError,
          corruptError]

theorem Decoded.reader_of_whole {d : Decoded} (h : d.fault? = none) (ahead : Nat) :
    d.reader ahead = .ofBytes d.content := by
  rw [reader, h]
  rfl

/-- What is due of a stream. -/
def Due : Stage → Bytes → Bytes → Prop
  | .gathering got, packed, content =>
    (decode (got ++ packed)).fault? = none ∧ (decode (got ++ packed)).content = content
  | .reading r, _, content => r.Straight ∧ r.drain = (content, none)

/-- A stream that is read is asked for bytes only where there is room for some. -/
theorem step_reading (r : Reader) (room : Nat) :
    decoder.step (.reading r) room =
      if room = 0 then .gives [] (.reading r)
      else
        match r.read room with
        | (.ok piece, r) => .gives piece (.reading r)
        | (.error e, r) => .fails e (.reading r) :=
  rfl

/-- The decoder of streams gives what a stream decodes to, in whatever pieces it comes. -/
theorem decoder_meets : decoder.Meets Due where
  gives {s room piece next packed content} hdue hstep := by
    cases s with
    | gathering got => cases hstep
    | reading r =>
        obtain ⟨hstraight, hdrain⟩ := hdue
        rw [step_reading] at hstep
        split at hstep
        · next hroom =>
            cases hstep
            exact ⟨List.nil_prefix, fun hne => absurd hroom hne, hstraight, hdrain⟩
        · next hroom =>
            split at hstep
            · next given rest hread =>
                cases hstep
                by_cases hnil : piece = []
                · subst hnil
                  obtain ⟨rfl, hend, -⟩ := hstraight.read_end hroom [] hread
                  obtain rfl : [] = content := congrArg Prod.fst (hend.symm.trans hdrain)
                  exact ⟨List.nil_prefix, fun _ _ => rfl, List.forall_mem_nil _, rfl⟩
                · obtain ⟨-, hrest, hfault, hpiece⟩ := hstraight.read_piece [] hread hnil
                  rw [hdrain] at hfault hpiece
                  obtain rfl : content = piece ++ (Reader.drain rest).1 := hpiece rfl
                  refine ⟨List.prefix_append _ _, fun _ h => absurd h hnil, hrest, ?_⟩
                  rw [List.drop_left]
                  exact Prod.ext rfl hfault.symm
            · cases hstep
  unfailing {s room e next packed content} hdue hstep := by
    cases s with
    | gathering got => cases hstep
    | reading r =>
        obtain ⟨hstraight, hdrain⟩ := hdue
        rw [step_reading] at hstep
        split at hstep
        · cases hstep
        · split at hstep
          · cases hstep
          · next failure rest hread =>
              have hfault := (hstraight.read_failure [] hread).2.2
              rw [hdrain] at hfault
              cases hfault
  wants {s room more next packed content} hdue hstep piece hprefix _ hnil := by
    cases s with
    | reading r =>
        rw [step_reading] at hstep
        split at hstep
        · cases hstep
        · split at hstep <;> cases hstep
    | gathering got =>
        obtain ⟨hwhole, rfl⟩ := hdue
        cases hstep
        obtain ⟨rest, rfl⟩ := hprefix
        cases piece with
        | nil =>
            -- All packed bytes are there, and from now on their content is read.
            obtain rfl : rest = [] := hnil rfl
            rw [List.append_nil, List.append_nil] at *
            show Reader.Straight _ ∧ Reader.drain _ = _
            rw [Decoded.reader_of_whole hwhole]
            exact ⟨Reader.straight_ofBytes _, Reader.drain_ofBytes _⟩
        | cons b bs =>
            show Due (.gathering (got ++ b :: bs)) _ _
            rw [List.drop_left, ← List.append_assoc] at *
            exact ⟨hwhole, rfl⟩

/-- A stream that decodes to its end. -/
theorem decoder_delivers {packed : Bytes} (h : (decode packed).fault? = none) :
    decoder.Delivers packed (decode packed).content :=
  ⟨Due, decoder_meets, h, rfl⟩

end Deflate

end AssetUnpack
