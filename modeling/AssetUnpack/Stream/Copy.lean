import AssetUnpack.Stream.Reader

/-!
# Copying a reader to a writer

A copy reads up to `bufferSize` bytes, writes all of them, and starts over until the reader is at
the end of the file; then it flushes. An interrupted read or write is tried again, any other
failure ends the copy, and so does a writer that takes nothing of what it is offered.

Writers are arbitrary state machines, except that they must not interrupt for ever: `patience`
falls with every interruption. `writeAll` therefore ends by the bytes left and then the patience,
and `transfer` by the weight of the reader.
-/

namespace AssetUnpack

/-- What a writer does with the bytes it is offered. -/
inductive WriteAnswer
  /-- Takes this many of them. -/
  | accepted (count : Nat)
  /-- Takes none and asks to be tried again. -/
  | interrupted
  /-- Fails. -/
  | failed (e : IoError)
  deriving DecidableEq

/-- A writer with states `σ`. -/
structure Writer (σ : Type) where
  write : σ → Bytes → WriteAnswer × σ
  flush : σ → Option IoError × σ
  /-- How often the writer may still interrupt. -/
  patience : σ → Nat
  patience_lt : ∀ s offered, (write s offered).1 = .interrupted →
    patience (write s offered).2 < patience s

namespace Copy

/-- Room for one read: 64 KiB. -/
def bufferSize : Nat := 65536

/-- The largest total that is counted. -/
def totalLimit : Nat := Bytes.limit64 - 1

/-- What a writer has been through. -/
structure Sent (σ : Type) where
  state : σ
  /-- The writer's answers, newest first. -/
  answers : List WriteAnswer
  /-- The pieces that the writer took, newest first. -/
  pieces : List Bytes

namespace Sent

variable {σ : Type}

/-- A writer in state `s` before its first call. -/
def start (s : σ) : Sent σ := ⟨s, [], []⟩

/-- All bytes that the writer took, in order. -/
def written (sent : Sent σ) : Bytes := sent.pieces.reverse.flatten

end Sent

variable {σ : Type}

/-- Offer bytes until the writer has taken all of them or fails. -/
def writeAll (w : Writer σ) (sent : Sent σ) (offered : Bytes) : Option IoError × Sent σ :=
  if offered.isEmpty then (none, sent)
  else
    match h : w.write sent.state offered with
    | (.interrupted, s) =>
      have : w.patience s < w.patience sent.state := by
        have := w.patience_lt sent.state offered
        rw [h] at this
        exact this rfl
      writeAll w ⟨s, .interrupted :: sent.answers, sent.pieces⟩ offered
    | (.failed e, s) => (some e, ⟨s, .failed e :: sent.answers, sent.pieces⟩)
    | (.accepted 0, s) => (some .nothingWritten, ⟨s, .accepted 0 :: sent.answers, sent.pieces⟩)
    | (.accepted (n + 1), s) =>
      writeAll w ⟨s, .accepted (n + 1) :: sent.answers, offered.take (n + 1) :: sent.pieces⟩
        (offered.drop (n + 1))
termination_by (offered.length, w.patience sent.state)
decreasing_by
  · exact Prod.Lex.right _ this
  · apply Prod.Lex.left
    cases offered with
    | nil => simp_all
    | cons b bs =>
      simp only [List.drop_succ_cons, List.length_drop, List.length_cons]
      omega

/-- How a copy ended. -/
structure Outcome (σ : Type) where
  /-- The number of bytes copied, or the failure that ended the copy. -/
  result : Except IoError Nat
  sent : Sent σ
  /-- How often the reader was asked. -/
  reads : Nat
  /-- Whether the writer was told to flush. -/
  flushed : Bool

/-- Copy what is left of a reader, given how far the copy has come. -/
def transfer (w : Writer σ) (sent : Sent σ) (reads total : Nat) (r : Reader) : Outcome σ :=
  match h : Reader.read bufferSize r with
  | (.error e, rest) =>
    if e.isInterrupted then
      have : Reader.weight rest < Reader.weight r := by
        have := Reader.weight_read_lt bufferSize r
        rw [h] at this
        simpa using this
      transfer w sent (reads + 1) total rest
    else ⟨.error e, sent, reads + 1, false⟩
  | (.ok [], _) =>
    match w.flush sent.state with
    | (none, s) => ⟨.ok total, { sent with state := s }, reads + 1, true⟩
    | (some e, s) => ⟨.error e, { sent with state := s }, reads + 1, true⟩
  | (.ok (b :: bs), rest) =>
    have : Reader.weight rest < Reader.weight r := by
      have := Reader.weight_read_lt bufferSize r
      rw [h] at this
      simpa using this
    match writeAll w sent (b :: bs) with
    | (some e, sent) => ⟨.error e, sent, reads + 1, false⟩
    | (none, sent) =>
      transfer w sent (reads + 1) (min (total + (b :: bs).length) totalLimit) rest
termination_by Reader.weight r

/-- Copy everything from a reader to a writer in state `s`. -/
def run (w : Writer σ) (s : σ) (r : Reader) : Outcome σ := transfer w (.start s) 0 0 r

end Copy

end AssetUnpack
