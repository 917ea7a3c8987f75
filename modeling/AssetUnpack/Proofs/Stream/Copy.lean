import AssetUnpack.Disk.Change

/-!
# Copying into a file

A file takes everything it is offered at once. So what ends up in it is what the
reader handed out before it ended or failed, however long: each round of the
copy moves one buffer from the front of the reader to the end of what was
written (`transfer_keeping`), and a reader of plain bytes leaves the file with
exactly those bytes (`run_keeping`).
-/

namespace AssetUnpack

/-- The writer that takes all it is offered. -/
def Writer.keeping : Writer Unit where
  write _ offered := (.accepted offered.length, ())
  flush _ := (none, ())
  patience _ := 0
  patience_lt _ _ h := by cases h

theorem Disk.writerAt_eq_keeping {d : Disk} {place : Place}
    (h : d.get? place ≠ some (.device .full)) : d.writerAt place = Writer.keeping := by
  -- The first case of the match is ruled out by `h`.
  simp only [Disk.writerAt, Writer.keeping]

/-- Reading plain bytes to their end gives them. -/
theorem Reader.drain_ofBytes (bs : Bytes) : Reader.drain (Reader.ofBytes bs) = (bs, none) := by
  cases bs with
  | nil => rfl
  | cons b bs => simp [Reader.ofBytes, Reader.drain]

namespace Copy

/-- What of a reader ends up in a file that it is copied to. -/
def kept (reader : Reader) : Bytes := (run Writer.keeping () reader).sent.written

theorem writeAll_keeping (sent : Sent Unit) (offered : Bytes) :
    ∃ sent', writeAll Writer.keeping sent offered = (none, sent') ∧
      sent'.written = sent.written ++ offered := by
  cases offered with
  | nil =>
      refine ⟨sent, ?_, (List.append_nil _).symm⟩
      rw [writeAll]
      rfl
  | cons b bs =>
      refine ⟨⟨(), .accepted (bs.length + 1) :: sent.answers, (b :: bs) :: sent.pieces⟩, ?_, ?_⟩
      · rw [writeAll]
        simp only [List.isEmpty_cons, Bool.false_eq_true, if_false, Writer.keeping,
          List.length_cons, List.take_succ_cons, List.take_length, List.drop_succ_cons,
          List.drop_length]
        rw [writeAll]
        rfl
      · simp [Sent.written]

section Rounds

variable {σ : Type} {w : Writer σ} {sent : Sent σ} {reads total : Nat} {r rest : Reader}

theorem transfer_of_end (h : Reader.read bufferSize r = (.ok [], rest)) {s : σ}
    (hflush : w.flush sent.state = (none, s)) :
    transfer w sent reads total r = ⟨.ok total, { sent with state := s }, reads + 1, true⟩ := by
  rw [transfer.eq_def]
  split <;> rename_i h' <;> rw [h] at h' <;> cases h'
  rw [hflush]

theorem transfer_of_piece {piece : Bytes} {sent' : Sent σ}
    (h : Reader.read bufferSize r = (.ok piece, rest)) (hne : piece ≠ [])
    (hwrite : writeAll w sent piece = (none, sent')) :
    transfer w sent reads total r =
      transfer w sent' (reads + 1) (min (total + piece.length) totalLimit) rest := by
  obtain ⟨b, bs, rfl⟩ := List.exists_cons_of_ne_nil hne
  rw [transfer.eq_def]
  split <;> rename_i h' <;> rw [h] at h' <;> cases h'
  simp only [hwrite]

end Rounds

theorem read_ofBytes_nil (room : Nat) : Reader.read room (Reader.ofBytes []) = (.ok [], []) := rfl

theorem read_ofBytes (room : Nat) {bs : Bytes} (h : bs ≠ []) :
    Reader.read room (Reader.ofBytes bs) =
      (.ok (bs.take room), Reader.ofBytes (bs.drop room)) := by
  obtain ⟨b, rest, rfl⟩ := List.exists_cons_of_ne_nil h
  simp [Reader.ofBytes, Reader.read]

theorem transfer_keeping (bs : Bytes) (sent : Sent Unit) (reads total : Nat)
    (htotal : total ≤ totalLimit) :
    (transfer Writer.keeping sent reads total (Reader.ofBytes bs)).result =
        .ok (min (total + bs.length) totalLimit) ∧
      (transfer Writer.keeping sent reads total (Reader.ofBytes bs)).sent.written =
        sent.written ++ bs := by
  by_cases hbs : bs = []
  · subst hbs
    have hcount : min (total + ([] : Bytes).length) totalLimit = total := Nat.min_eq_left htotal
    rw [transfer_of_end (read_ofBytes_nil _) rfl, List.append_nil, hcount]
    exact ⟨rfl, rfl⟩
  · have hroom : 0 < bufferSize := by decide
    have hpos : 0 < bs.length := List.length_pos_iff.mpr hbs
    have hpiece : bs.take bufferSize ≠ [] := by
      rw [← List.length_pos_iff, List.length_take]
      omega
    obtain ⟨sent', hwrite, hwritten⟩ := writeAll_keeping sent (bs.take bufferSize)
    have hshorter : (bs.drop bufferSize).length < bs.length := by
      rw [List.length_drop]
      omega
    obtain ⟨hresult, hrest⟩ := transfer_keeping (bs.drop bufferSize) sent' (reads + 1)
      (min (total + (bs.take bufferSize).length) totalLimit) (Nat.min_le_right _ _)
    have hcount : min (min (total + (bs.take bufferSize).length) totalLimit +
        (bs.drop bufferSize).length) totalLimit = min (total + bs.length) totalLimit := by
      rw [List.length_take, List.length_drop]
      omega
    rw [transfer_of_piece (read_ofBytes _ hbs) hpiece hwrite, hresult, hrest, hwritten, hcount,
      List.append_assoc, List.take_append_drop]
    exact ⟨rfl, rfl⟩
termination_by bs.length
decreasing_by exact hshorter

/-- A file that plain bytes are copied to holds them, and they are counted as far
as counting goes. -/
theorem run_keeping (bs : Bytes) :
    (run Writer.keeping () (Reader.ofBytes bs)).result = .ok (min bs.length totalLimit) ∧
      kept (Reader.ofBytes bs) = bs := by
  have h := transfer_keeping bs (Sent.start ()) 0 0 (Nat.zero_le _)
  rw [Nat.zero_add] at h
  exact ⟨h.1, h.2⟩

end Copy

end AssetUnpack
