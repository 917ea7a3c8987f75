/-!
# Finite tables in order of first insertion

A `Table` is a finite map that remembers the order in which its keys arrived: putting a value at a
known key replaces the value and leaves the key where it was. The index of a package and the state
of a disk are both tables, and every statement about them goes through one equation,
`get?_put`: after a put only the key that was put answers differently.
-/

namespace AssetUnpack

/-- A finite map from `κ` to `ν`, in order of first insertion. -/
structure Table (κ ν : Type) where
  entries : List (κ × ν)

namespace Table

variable {κ ν : Type} [DecidableEq κ]

/-- The table without entries. -/
def empty : Table κ ν := ⟨[]⟩

/-- The value at a key in a list of entries: the first one wins. -/
def lookupIn (k : κ) : List (κ × ν) → Option ν
  | [] => none
  | (k', v) :: rest => if k' = k then some v else lookupIn k rest

/-- Replace the value at `k`, or append a new entry. -/
def putIn (k : κ) (v : ν) : List (κ × ν) → List (κ × ν)
  | [] => [(k, v)]
  | (k', v') :: rest => if k' = k then (k', v) :: rest else (k', v') :: putIn k v rest

/-- The value at a key. -/
def get? (t : Table κ ν) (k : κ) : Option ν := lookupIn k t.entries

/-- The table with `v` at `k`. -/
def put (t : Table κ ν) (k : κ) (v : ν) : Table κ ν := ⟨putIn k v t.entries⟩

/-- The table without the keys that satisfy `p`. -/
def eraseWhere (t : Table κ ν) (p : κ → Bool) : Table κ ν :=
  ⟨t.entries.filter fun e => !p e.1⟩

/-- The keys, oldest first. -/
def keys (t : Table κ ν) : List κ := t.entries.map (·.1)

/-- Number of entries. -/
def size (t : Table κ ν) : Nat := t.entries.length

@[simp] theorem get?_empty (k : κ) : (empty : Table κ ν).get? k = none := rfl

theorem lookupIn_putIn (l : List (κ × ν)) (k q : κ) (v : ν) :
    lookupIn q (putIn k v l) = if q = k then some v else lookupIn q l := by
  induction l with
  | nil => simp only [putIn, lookupIn, eq_comm]
  | cons e rest ih =>
    obtain ⟨k', v'⟩ := e
    by_cases hk : k' = k
    · subst hk
      by_cases hq : q = k' <;> simp [putIn, lookupIn, hq, eq_comm]
    · by_cases hq : k' = q
      · subst hq
        simp [putIn, lookupIn, hk]
      · simp [putIn, lookupIn, hk, hq, ih]

/-- A put changes the answer at its own key and at no other. -/
@[simp] theorem get?_put (t : Table κ ν) (k q : κ) (v : ν) :
    (t.put k v).get? q = if q = k then some v else t.get? q :=
  lookupIn_putIn t.entries k q v

theorem lookupIn_eq_none {k : κ} {l : List (κ × ν)} :
    lookupIn k l = none ↔ k ∉ l.map (·.1) := by
  induction l with
  | nil => simp [lookupIn]
  | cons e rest ih =>
    obtain ⟨k', v⟩ := e
    by_cases h : k' = k
    · simp [lookupIn, h]
    · have h' : k ≠ k' := fun e => h e.symm
      simp only [lookupIn, if_neg h, ih, List.map_cons, List.mem_cons, h', false_or]

/-- A key is absent exactly when looking it up gives nothing. -/
theorem get?_eq_none {t : Table κ ν} {k : κ} : t.get? k = none ↔ k ∉ t.keys :=
  lookupIn_eq_none

theorem keys_putIn (l : List (κ × ν)) (k : κ) (v : ν) :
    (putIn k v l).map (·.1) = if k ∈ l.map (·.1) then l.map (·.1) else l.map (·.1) ++ [k] := by
  induction l with
  | nil => simp [putIn]
  | cons e rest ih =>
    obtain ⟨k', v'⟩ := e
    by_cases h : k' = k
    · simp [putIn, h]
    · have h' : k ≠ k' := fun e => h e.symm
      by_cases hm : k ∈ rest.map (·.1)
      · simp only [putIn, if_neg h, List.map_cons, ih, List.mem_cons, hm, or_true, if_true]
      · simp only [putIn, if_neg h, List.map_cons, ih, List.mem_cons, hm, h', or_self,
          if_false, List.cons_append]

/-- A put keeps the order of the keys and appends a new one at the end. -/
theorem keys_put (t : Table κ ν) (k : κ) (v : ν) :
    (t.put k v).keys = if k ∈ t.keys then t.keys else t.keys ++ [k] :=
  keys_putIn t.entries k v

/-- A put leaves every key in the table once. -/
theorem keys_put_nodup {t : Table κ ν} (h : t.keys.Nodup) (k : κ) (v : ν) :
    (t.put k v).keys.Nodup := by
  rw [keys_put]
  split
  · exact h
  · next hnew =>
      refine List.nodup_append.mpr ⟨h, by simp, fun a ha b hb => ?_⟩
      rw [List.mem_singleton.mp hb]
      rintro rfl
      exact hnew ha

theorem mem_keys {t : Table κ ν} {k : κ} : k ∈ t.keys ↔ t.get? k ≠ none := by
  rw [Ne, get?_eq_none, Decidable.not_not]

end Table

end AssetUnpack
