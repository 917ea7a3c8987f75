import AssetUnpack.Stream.Copy

/-!
# Copying through a buffer

`Copy.run` tells what a copy comes to; this is how it is done. All copies go through one buffer,
whose content is never cleared. A read fills the front of the buffer and leaves the rest as it was,
and the writer is offered as much of the front as was read, so that nothing of what an earlier copy
left there may reach it.

A transcript has every call that the copy made, with its answer and in order.
-/

namespace AssetUnpack.Copy

/-! ## Buffers -/

/-- The buffer between readers and writers. -/
structure Buffer where
  bytes : Bytes
  length_bytes : bytes.length = bufferSize

namespace Buffer

/-- A buffer that nothing was read into. -/
def new : Buffer := ⟨List.replicate bufferSize 0, List.length_replicate⟩

/-- The room for one read. -/
def size (b : Buffer) : Nat := b.bytes.length

/-- The buffer with a piece read into it. -/
def fill (b : Buffer) (piece : Bytes) (h : piece.length ≤ bufferSize) : Buffer where
  bytes := piece ++ b.bytes.drop piece.length
  length_bytes := by
    rw [List.length_append, List.length_drop, b.length_bytes]
    omega

/-- So many bytes from the front of a buffer. -/
def front (b : Buffer) (count : Nat) : Bytes := b.bytes.take count

/-- What was read last is at the front, whatever was there before. -/
theorem front_fill (b : Buffer) (piece : Bytes) (h : piece.length ≤ bufferSize) :
    (b.fill piece h).front piece.length = piece :=
  List.take_left

end Buffer

/-! ## Transcripts -/

/-- A call that a copy makes, and its answer. -/
inductive Call
  | read (answer : Except IoError Bytes)
  | write (offered : Bytes) (answer : WriteAnswer)
  | flush (answer : Option IoError)

/-- How a copy went. -/
structure Transcript (σ : Type) where
  /-- The number of bytes copied, or the failure that ended the copy. -/
  result : Except IoError Nat
  /-- The writer after the copy. -/
  state : σ
  /-- The buffer after the copy. -/
  buffer : Buffer
  /-- The calls that were made, oldest first. -/
  calls : List Call

/-- How far a copy has come. -/
structure Passage (σ : Type) where
  state : σ
  buffer : Buffer
  /-- The calls that were made, newest first. -/
  calls : List Call

namespace Passage

variable {σ : Type}

/-- Note a call, after which the writer is in a state. -/
def note (p : Passage σ) (c : Call) (state : σ) : Passage σ :=
  { p with calls := c :: p.calls, state }

/-- Note a read that filled the buffer. -/
def fill (p : Passage σ) (piece : Bytes) (h : piece.length ≤ bufferSize) : Passage σ :=
  { p.note (.read (.ok piece)) p.state with buffer := p.buffer.fill piece h }

/-- End a copy. -/
def close (p : Passage σ) (result : Except IoError Nat) : Transcript σ :=
  ⟨result, p.state, p.buffer, p.calls.reverse⟩

/-- Offer bytes until the writer has taken all of them or fails. -/
def writeAll (w : Writer σ) (p : Passage σ) (offered : Bytes) : Option IoError × Passage σ :=
  if offered.isEmpty then (none, p)
  else
    match h : w.write p.state offered with
    | (.interrupted, s) =>
      have : w.patience s < w.patience p.state := by
        have := w.patience_lt p.state offered
        rw [h] at this
        exact this rfl
      (p.note (.write offered .interrupted) s).writeAll w offered
    | (.failed e, s) => (some e, p.note (.write offered (.failed e)) s)
    | (.accepted 0, s) => (some .nothingWritten, p.note (.write offered (.accepted 0)) s)
    | (.accepted (n + 1), s) =>
      (p.note (.write offered (.accepted (n + 1))) s).writeAll w (offered.drop (n + 1))
termination_by (offered.length, w.patience p.state)
decreasing_by
  · exact Prod.Lex.right _ this
  · apply Prod.Lex.left
    cases offered with
    | nil => simp_all
    | cons b bs =>
      simp only [List.drop_succ_cons, List.length_drop, List.length_cons]
      omega

/-- Copy what is left of a reader, given how far the copy has come. -/
def transfer (w : Writer σ) (p : Passage σ) (total : Nat) (r : Reader) : Transcript σ :=
  match h : Reader.read bufferSize r with
  | (.error e, rest) =>
    let p := p.note (.read (.error e)) p.state
    if e.isInterrupted then
      have : Reader.weight rest < Reader.weight r := by
        have := Reader.weight_read_lt bufferSize r
        rw [h] at this
        simpa using this
      p.transfer w total rest
    else p.close (.error e)
  | (.ok [], _) =>
    let p := p.note (.read (.ok [])) p.state
    match w.flush p.state with
    | (none, s) => (p.note (.flush none) s).close (.ok total)
    | (some e, s) => (p.note (.flush (some e)) s).close (.error e)
  | (.ok (b :: bs), rest) =>
    have : Reader.weight rest < Reader.weight r := by
      have := Reader.weight_read_lt bufferSize r
      rw [h] at this
      simpa using this
    let p := p.fill (b :: bs) (Reader.length_read_le h)
    match p.writeAll w (p.buffer.front (b :: bs).length) with
    | (some e, p) => p.close (.error e)
    | (none, p) => p.transfer w (min (total + (b :: bs).length) totalLimit) rest
termination_by Reader.weight r

end Passage

variable {σ : Type}

/-- Copy everything from a reader to a writer in state `s`, through a buffer. -/
def through (w : Writer σ) (s : σ) (buffer : Buffer) (r : Reader) : Transcript σ :=
  Passage.transfer w ⟨s, buffer, []⟩ 0 r

end AssetUnpack.Copy
