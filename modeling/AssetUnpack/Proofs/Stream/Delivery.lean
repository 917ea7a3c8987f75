import AssetUnpack.Proofs.Stream.Copy

/-!
# What a reader delivers before it ends or fails

A copy asks for a buffer of bytes at a time. `deliver` is what it gets: the bytes
of all reads before the first that says the file is at an end, or that fails, and
that failure. Reads that were interrupted are made again. The size of the buffer
matters, because a decoder that works ahead withholds the bytes in front of a
fault from whoever asks for all of them.

A file that takes all it is offered keeps exactly what is delivered
(`kept_eq_deliver`), whether or not the copy ended well. So a reader that breaks
off leaves a prefix of the asset behind, and nothing else.
-/

namespace AssetUnpack

namespace Reader

/-- What reads with so much room deliver, and the failure they end with, if any. -/
def deliver (room : Nat) (r : Reader) : Bytes × Option IoError :=
  match h : read room r with
  | (.error e, rest) =>
    if e.isInterrupted then
      have : weight rest < weight r := by
        have := weight_read_lt room r
        rw [h] at this
        simpa using this
      deliver room rest
    else ([], some e)
  | (.ok [], _) => ([], none)
  | (.ok (b :: bs), rest) =>
    have : weight rest < weight r := by
      have := weight_read_lt room r
      rw [h] at this
      simpa using this
    let more := deliver room rest
    (b :: bs ++ more.1, more.2)
termination_by weight r

/-- One that delivers a beginning of what another delivers, and then fails. -/
def BreaksOff (room : Nat) (broken whole : Reader) : Prop :=
  (∃ e, (broken.deliver room).2 = some e) ∧ (broken.deliver room).1 <+: (whole.deliver room).1

section Deliver

variable {room : Nat} {r r' rest : Reader} {e : IoError}

theorem weight_lt_of_read {answer : Except IoError Bytes} (h : read room r = (answer, rest))
    (hne : answer ≠ .ok []) : weight rest < weight r := by
  have hlt := weight_read_lt room r
  rw [h] at hlt
  exact hlt.resolve_left hne

theorem deliver_of_end (h : read room r = (.ok [], rest)) : deliver room r = ([], none) := by
  rw [deliver.eq_def]
  split <;> rename_i h' <;> rw [h] at h' <;> cases h'

theorem deliver_of_interrupted (h : read room r = (.error e, rest))
    (he : e.isInterrupted = true) : deliver room r = deliver room rest := by
  rw [deliver.eq_def]
  split <;> rename_i h' <;> rw [h] at h' <;> cases h'
  rw [if_pos he]

theorem deliver_of_failure (h : read room r = (.error e, rest))
    (he : e.isInterrupted = false) : deliver room r = ([], some e) := by
  rw [deliver.eq_def]
  split <;> rename_i h' <;> rw [h] at h' <;> cases h'
  rw [if_neg (by rw [he]; simp)]

theorem deliver_of_piece {piece : Bytes} (h : read room r = (.ok piece, rest))
    (hne : piece ≠ []) :
    deliver room r = (piece ++ (deliver room rest).1, (deliver room rest).2) := by
  obtain ⟨b, bs, rfl⟩ := List.exists_cons_of_ne_nil hne
  rw [deliver.eq_def]
  split <;> rename_i h' <;> rw [h] at h' <;> cases h'
  rfl

/-- Readers that answer the first read alike deliver the same. -/
theorem deliver_congr (h : read room r = read room r') : deliver room r = deliver room r' := by
  match hread : read room r with
  | (.error e, rest) =>
      have hread' := h.symm.trans hread
      by_cases he : e.isInterrupted = true
      · rw [deliver_of_interrupted hread he, deliver_of_interrupted hread' he]
      · rw [Bool.not_eq_true] at he
        rw [deliver_of_failure hread he, deliver_of_failure hread' he]
  | (.ok [], rest) => rw [deliver_of_end hread, deliver_of_end (h.symm.trans hread)]
  | (.ok (b :: bs), rest) =>
      have hne := List.cons_ne_nil b bs
      rw [deliver_of_piece hread hne, deliver_of_piece (h.symm.trans hread) hne]

/-- Data is delivered in front of what comes behind it. -/
theorem deliver_data (hroom : 0 < room) (bs : Bytes) (rest : Reader) :
    deliver room (.data bs none :: rest) =
      (bs ++ (deliver room rest).1, (deliver room rest).2) := by
  by_cases hbs : bs = []
  · subst hbs
    have hread : read room (.data [] none :: rest) = read room rest := rfl
    rw [deliver_congr hread, List.nil_append]
  · have hread : read room (.data bs none :: rest) =
        (.ok (bs.take room), .data (bs.drop room) none :: rest) := by
      obtain ⟨b, tail, rfl⟩ := List.exists_cons_of_ne_nil hbs
      simp [read]
    have hpos : 0 < bs.length := List.length_pos_iff.mpr hbs
    have hpiece : bs.take room ≠ [] := by
      rw [← List.length_pos_iff, List.length_take]
      omega
    have hshorter : (bs.drop room).length < bs.length := by
      rw [List.length_drop]
      omega
    rw [deliver_of_piece hread hpiece, deliver_data hroom (bs.drop room) rest,
      ← List.append_assoc, List.take_append_drop]
termination_by bs.length
decreasing_by exact hshorter

theorem deliver_nil (room : Nat) : deliver room [] = ([], none) := deliver_of_end rfl

theorem deliver_fault (he : e.isInterrupted = false) (rest : Reader) :
    deliver room (.fault e :: rest) = ([], some e) := deliver_of_failure rfl he

theorem deliver_ofBytes (hroom : 0 < room) (bs : Bytes) :
    deliver room (ofBytes bs) = (bs, none) := by
  rw [ofBytes, deliver_data hroom, deliver_nil, List.append_nil]

/-- Plain bytes that are made to fail after some of them are delivered up to
there. -/
theorem deliver_failAfter (hroom : 0 < room) (he : e.isInterrupted = false) {n : Nat}
    {bs : Bytes} (hn : n ≤ bs.length) :
    deliver room (failAfter e n (ofBytes bs)) = (bs.take n, some e) := by
  cases n with
  | zero => exact deliver_fault he []
  | succ n =>
      have hmore : bs.atLeast (n + 1) = true := Bytes.atLeast_iff.mpr hn
      rw [ofBytes, failAfter, if_pos hmore, deliver_data hroom, deliver_fault he,
        List.append_nil]

theorem breaksOff_failAfter (hroom : 0 < room) (he : e.isInterrupted = false) {n : Nat}
    {bs : Bytes} (hn : n ≤ bs.length) :
    BreaksOff room (failAfter e n (ofBytes bs)) (ofBytes bs) := by
  rw [BreaksOff, deliver_failAfter hroom he hn, deliver_ofBytes hroom]
  exact ⟨⟨e, rfl⟩, List.take_prefix n bs⟩

end Deliver

end Reader

namespace Copy

section Rounds

variable {σ : Type} {w : Writer σ} {sent : Sent σ} {reads total : Nat} {r rest : Reader}
  {e : IoError}

theorem transfer_of_interrupted (h : Reader.read bufferSize r = (.error e, rest))
    (he : e.isInterrupted = true) :
    transfer w sent reads total r = transfer w sent (reads + 1) total rest := by
  rw [transfer.eq_def]
  split <;> rename_i h' <;> rw [h] at h' <;> cases h'
  rw [if_pos he]

theorem transfer_of_failure (h : Reader.read bufferSize r = (.error e, rest))
    (he : e.isInterrupted = false) :
    transfer w sent reads total r = ⟨.error e, sent, reads + 1, false⟩ := by
  rw [transfer.eq_def]
  split <;> rename_i h' <;> rw [h] at h' <;> cases h'
  rw [if_neg (by rw [he]; simp)]

end Rounds

theorem transfer_keeping_deliver (r : Reader) (sent : Sent Unit) (reads total : Nat) :
    (transfer Writer.keeping sent reads total r).sent.written =
      sent.written ++ (r.deliver bufferSize).1 := by
  match hread : Reader.read bufferSize r with
  | (.error e, rest) =>
      by_cases he : e.isInterrupted = true
      · have hless := Reader.weight_lt_of_read hread (by simp)
        rw [transfer_of_interrupted hread he, Reader.deliver_of_interrupted hread he]
        exact transfer_keeping_deliver rest sent (reads + 1) total
      · rw [Bool.not_eq_true] at he
        rw [transfer_of_failure hread he, Reader.deliver_of_failure hread he, List.append_nil]
  | (.ok [], rest) =>
      rw [transfer_of_end hread rfl, Reader.deliver_of_end hread, List.append_nil]
  | (.ok (b :: bs), rest) =>
      have hless := Reader.weight_lt_of_read hread (by simp)
      have hne := List.cons_ne_nil b bs
      obtain ⟨sent', hwrite, hwritten⟩ := writeAll_keeping sent (b :: bs)
      rw [transfer_of_piece hread hne hwrite, Reader.deliver_of_piece hread hne,
        transfer_keeping_deliver rest sent', hwritten, List.append_assoc]
termination_by Reader.weight r
decreasing_by
  · exact hless
  · exact hless

/-- A file keeps what the reader delivers to it. -/
theorem kept_eq_deliver (r : Reader) : kept r = (r.deliver bufferSize).1 :=
  transfer_keeping_deliver r (Sent.start ()) 0 0

/-- A copy to a file goes well if the reader delivers to its end. -/
theorem transfer_keeping_ok (r : Reader) (hend : (r.deliver bufferSize).2 = none)
    (sent : Sent Unit) (reads total : Nat) :
    ∃ count, (transfer Writer.keeping sent reads total r).result = .ok count := by
  match hread : Reader.read bufferSize r with
  | (.error e, rest) =>
      by_cases he : e.isInterrupted = true
      · have hless := Reader.weight_lt_of_read hread (by simp)
        rw [Reader.deliver_of_interrupted hread he] at hend
        rw [transfer_of_interrupted hread he]
        exact transfer_keeping_ok rest hend sent (reads + 1) total
      · rw [Bool.not_eq_true] at he
        rw [Reader.deliver_of_failure hread he] at hend
        cases hend
  | (.ok [], rest) => exact ⟨total, by rw [transfer_of_end hread rfl]⟩
  | (.ok (b :: bs), rest) =>
      have hless := Reader.weight_lt_of_read hread (by simp)
      have hne := List.cons_ne_nil b bs
      obtain ⟨sent', hwrite, -⟩ := writeAll_keeping sent (b :: bs)
      rw [Reader.deliver_of_piece hread hne] at hend
      rw [transfer_of_piece hread hne hwrite]
      exact transfer_keeping_ok rest hend sent' (reads + 1) _
termination_by Reader.weight r
decreasing_by
  · exact hless
  · exact hless

end Copy

end AssetUnpack
