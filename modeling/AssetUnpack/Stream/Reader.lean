import AssetUnpack.Bytes
import AssetUnpack.IoError

/-!
# Readers

A reader is the list of things it will hand out: data, failures and ends of file. A read takes from
the front, at most as many bytes as there is room for, and a piece of data may cap what one read
gets of it. Everything that can be opened in this library, a file, an entry of a package or a stream
that breaks half-way, is such a list, so two readers are equal when they behave the same.

A decoder that works ahead finds a fault while it fills the room it was given, and then hands out
nothing of what it had filled. Such bytes are doomed: they can be had in small pieces, but not
together with the last of them.

`weight` bounds the number of reads that are left: `weight_read_lt` says that every read lowers it,
except one that reports the end of the file.
-/

namespace AssetUnpack

/-- One thing that a reader holds ready. -/
inductive Supply
  /-- Bytes, of which one read gets no more than `most`. -/
  | data (bytes : Bytes) (most : Option Nat)
  /-- A failure, reported by one read. -/
  | fault (e : IoError)
  /-- Bytes with a failure right behind them. A read that would take the last of them fails
  instead. -/
  | doomed (bytes : Bytes) (e : IoError)
  /-- An end of file, reported by one read. -/
  | stop
  deriving DecidableEq

/-- A reader: what it will hand out, in order. After the last supply it is at the end of file. -/
abbrev Reader := List Supply

namespace Reader

/-- The reader of a byte string that never fails. -/
def ofBytes (bs : Bytes) : Reader := [.data bs none]

/-- One read with room for `room` bytes; no bytes mean the end of the file. -/
def read (room : Nat) : Reader → Except IoError Bytes × Reader
  | [] => (.ok [], [])
  | .stop :: rest => (.ok [], rest)
  | .fault e :: rest => (.error e, rest)
  | .data bs most :: rest =>
    if bs.isEmpty then read room rest
    else
      let n := min room (most.getD room)
      (.ok (bs.take n), .data (bs.drop n) most :: rest)
  | .doomed bs e :: rest =>
    if bs.atLeast (room + 1) then (.ok (bs.take room), .doomed (bs.drop room) e :: rest)
    else (.error e, rest)

/-- A read gives no more than there is room for. -/
theorem length_read_le {room : Nat} {r rest : Reader} {bs : Bytes}
    (h : read room r = (.ok bs, rest)) : bs.length ≤ room := by
  induction r with
  | nil =>
    cases h
    exact Nat.zero_le _
  | cons s r ih =>
    cases s with
    | stop =>
      cases h
      exact Nat.zero_le _
    | fault e => cases h
    | data bytes most =>
      rw [read] at h
      split at h
      · exact ih h
      · cases h
        rw [List.length_take]
        omega
    | doomed bytes e =>
      rw [read] at h
      split at h
      · cases h
        rw [List.length_take]
        omega
      · cases h

/-- What one supply adds to the weight of a reader. -/
def supplyWeight : Supply → Nat
  | .data bs _ | .doomed bs _ => bs.length + 1
  | .fault _ => 1
  | .stop => 1

/-- An upper bound on the reads that a reader answers before it stays at the end of the file. -/
def weight (r : Reader) : Nat := r.foldr (fun s n => supplyWeight s + n) 0

/-- A read lowers the weight unless it reports the end of the file. -/
theorem weight_read_lt (room : Nat) (r : Reader) :
    (read room r).1 = .ok [] ∨ weight (read room r).2 < weight r := by
  induction r with
  | nil => left; rfl
  | cons s rest ih =>
    cases s with
    | stop => left; rfl
    | fault e => right; simp [read, weight, supplyWeight]
    | data bs most =>
      cases bs with
      | nil =>
        simp only [read, List.isEmpty_nil, if_true]
        refine ih.imp id fun h => ?_
        simp only [weight, List.foldr_cons, supplyWeight] at h ⊢
        omega
      | cons b bs =>
        simp only [read, List.isEmpty_cons, Bool.false_eq_true, if_false]
        cases hn : min room (most.getD room) with
        | zero => left; rfl
        | succ n =>
          right
          simp only [weight, List.foldr_cons, supplyWeight, List.length_drop, List.length_cons]
          omega
    | doomed bs e =>
      simp only [read]
      split
      · cases room with
        | zero => left; rfl
        | succ n =>
          right
          next h =>
          have := Bytes.atLeast_iff.1 h
          simp only [weight, List.foldr_cons, supplyWeight, List.length_drop]
          omega
      · right
        simp only [weight, List.foldr_cons, supplyWeight]
        omega

/-- Everything that a reader delivers before it ends or fails, and the failure if there is one, to
somebody who has room for all of it. A read that was interrupted is tried again and does not count
as a failure. -/
def drain : Reader → Bytes × Option IoError
  | [] => ([], none)
  | .stop :: _ => ([], none)
  | .fault e :: rest | .doomed _ e :: rest => if e.isInterrupted then drain rest else ([], some e)
  | .data bs most :: rest =>
    if bs.isEmpty then drain rest
    else if most = some 0 then ([], none)
    else
      let (more, e?) := drain rest
      (bs ++ more, e?)

/-- The bytes that can be had when so many are asked for and no more, the failure that asking ran
into, and the reader after it. There are fewer bytes than asked for where the reader ends or
fails. -/
def collect : Nat → Reader → Bytes × Option IoError × Reader
  | 0, r => ([], none, r)
  | _ + 1, [] => ([], none, [])
  | _ + 1, .stop :: rest => ([], none, rest)
  | _ + 1, .fault e :: rest => ([], some e, rest)
  | n + 1, .data bs most :: rest =>
    if bs.atLeast (n + 1) then
      (bs.take (n + 1), none, .data (bs.drop (n + 1)) most :: rest)
    else
      let more := collect (n + 1 - bs.length) rest
      (bs ++ more.1, more.2)
  | n + 1, .doomed bs e :: rest =>
    if bs.atLeast (n + 2) then
      (bs.take (n + 1), none, .doomed (bs.drop (n + 1)) e :: rest)
    else ([], some e, rest)

/-- What is collected comes off the weight. -/
theorem weight_collect_le (n : Nat) (r : Reader) :
    (collect n r).1.length + weight (collect n r).2.2 ≤ weight r := by
  induction r generalizing n with
  | nil => cases n <;> simp [collect, weight]
  | cons s rest ih =>
    cases n with
    | zero => simp [collect]
    | succ n =>
      cases s with
      | stop => simp [collect, weight, supplyWeight]
      | fault e => simp [collect, weight, supplyWeight]
      | data bs most =>
        simp only [collect]
        split
        · simp only [weight, List.foldr_cons, supplyWeight, List.length_drop, List.length_take]
          omega
        · have := ih (n + 1 - bs.length)
          simp only [weight, List.foldr_cons, supplyWeight, List.length_append] at this ⊢
          omega
      | doomed bs e =>
        simp only [collect]
        split
        · simp only [weight, List.foldr_cons, supplyWeight, List.length_drop, List.length_take]
          omega
        · simp only [weight, List.foldr_cons, supplyWeight, List.length_nil]
          omega

/-- The reader that lets so many bytes through and then fails, also where there are exactly as
many. One that ends or fails earlier does so as before. -/
def failAfter (e : IoError) : Nat → Reader → Reader
  | 0, _ => [.fault e]
  | _ + 1, [] => []
  | n + 1, .stop :: rest => .stop :: failAfter e (n + 1) rest
  | n + 1, .fault e' :: rest => .fault e' :: failAfter e (n + 1) rest
  | n + 1, .data bs most :: rest =>
    if bs.atLeast (n + 1) then [.data (bs.take (n + 1)) most, .fault e]
    else .data bs most :: failAfter e (n + 1 - bs.length) rest
  | n + 1, .doomed bs e' :: rest =>
    if bs.atLeast (n + 2) then [.data (bs.take (n + 1)) none, .fault e]
    else .doomed bs e' :: failAfter e (n + 1) rest

end Reader

end AssetUnpack
