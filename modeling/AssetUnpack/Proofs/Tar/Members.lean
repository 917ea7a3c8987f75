import AssetUnpack.Tar.Member

/-!
# Reading members one by one

A bundle is read by a recursion on what is left of the input. For a member whose
header says all there is to say about it, one step of the recursion comes down to
what the header holds (`members_of_plain`), and where no header follows it comes to
an end (`members_of_end`).
-/

namespace AssetUnpack.Tar

section Step

variable {at_ : Position} {passed header : Bytes} {input body : Reader} {size : Nat}

/-- A member that nothing before it describes, and that describes nothing. -/
theorem members_of_plain (hpassed : at_.rest.collect at_.gap = (passed, none, input))
    (hgap : at_.gap ≤ passed.length) (hheader : input.collect blockSize = (header, none, body))
    (hwhole : blockSize ≤ header.length) (hzero : header.all (· == 0) = false)
    (hread : readHeader header {} at_.place = .ok size) (hrole : role header = .content)
    (hsparse : flagOf header ≠ sparseFlag) :
    members {} at_ =
      .member ⟨memberName header {}, flagOf header, (body.collect size).1, (body.collect size).2.1⟩ ::
        members {} ⟨body, paddedSize size, at_.place + blockSize + paddedSize size⟩ := by
  have hbody : (body.collect (0 * blockSize)).2.2 = body := by
    rw [Nat.zero_mul]
    cases body <;> rfl
  rw [members.eq_def]
  split
  · next h =>
      rw [hpassed] at h
      cases h
  next h =>
  rw [hpassed] at h
  cases h
  rw [if_neg (Nat.not_lt.mpr hgap)]
  split
  · next h =>
      rw [hheader] at h
      cases h
  next h =>
  rw [hheader] at h
  cases h
  rw [dif_neg (Nat.not_lt.mpr hwhole), if_neg (by rw [hzero]; exact Bool.false_ne_true), hread]
  dsimp only
  rw [hrole]
  dsimp only
  rw [if_neg hsparse]
  dsimp only
  rw [hbody, Nat.zero_mul, Nat.add_zero]

/-- The input ends where a header would start. -/
theorem members_of_end (hpassed : at_.rest.collect at_.gap = (passed, none, input))
    (hgap : at_.gap ≤ passed.length) (hend : input.collect blockSize = ([], none, body)) :
    members {} at_ = [] := by
  rw [members.eq_def]
  split
  · next h =>
      rw [hpassed] at h
      cases h
  next h =>
  rw [hpassed] at h
  cases h
  rw [if_neg (Nat.not_lt.mpr hgap)]
  split
  · next h =>
      rw [hend] at h
      cases h
  next h =>
  rw [hend] at h
  cases h
  rfl

end Step

theorem collect_ofBytes {bs : Bytes} {n : Nat} (h : n ≤ bs.length) :
    (Reader.ofBytes bs).collect n = (bs.take n, none, Reader.ofBytes (bs.drop n)) := by
  cases n with
  | zero => simp [Reader.ofBytes, Reader.collect]
  | succ n =>
      unfold Reader.ofBytes Reader.collect
      rw [if_pos (Bytes.atLeast_iff.mpr h)]

/-- What can be collected of a byte string, be it long enough or not. -/
theorem collected_ofBytes (bs : Bytes) (n : Nat) :
    ((Reader.ofBytes bs).collect n).1 = bs.take n ∧ ((Reader.ofBytes bs).collect n).2.1 = none := by
  by_cases h : n ≤ bs.length
  · rw [collect_ofBytes h]
    exact ⟨rfl, rfl⟩
  · obtain ⟨m, rfl⟩ : ∃ m, n = m + 1 := ⟨n - 1, by omega⟩
    obtain ⟨k, hk⟩ : ∃ k, m + 1 - bs.length = k + 1 := ⟨m - bs.length, by omega⟩
    have hshort : bs.atLeast (m + 1) ≠ true := fun hlong => h (Bytes.atLeast_iff.mp hlong)
    unfold Reader.ofBytes Reader.collect
    rw [if_neg hshort, hk, List.take_of_length_le (by omega)]
    exact ⟨List.append_nil bs, rfl⟩

/-- The same of a bundle that is a byte string. -/
theorem members_of_bytes {bs header : Bytes} {gap place size : Nat}
    (hheader : header = (bs.drop gap).take blockSize) (hlong : gap + blockSize ≤ bs.length)
    (hzero : header.all (· == 0) = false) (hread : readHeader header {} place = .ok size)
    (hrole : role header = .content) (hsparse : flagOf header ≠ sparseFlag) :
    members {} ⟨.ofBytes bs, gap, place⟩ =
      .member ⟨memberName header {}, flagOf header, (bs.drop (gap + blockSize)).take size, none⟩ ::
        members {} ⟨.ofBytes (bs.drop (gap + blockSize)), paddedSize size,
          place + blockSize + paddedSize size⟩ := by
  have hpassed : (Reader.ofBytes bs).collect gap =
      (bs.take gap, none, Reader.ofBytes (bs.drop gap)) := collect_ofBytes (by omega)
  have hnext : (Reader.ofBytes (bs.drop gap)).collect blockSize =
      (header, none, Reader.ofBytes (bs.drop (gap + blockSize))) := by
    rw [collect_ofBytes (by rw [List.length_drop]; omega), hheader, List.drop_drop]
  have hwhole : header.length = blockSize := by
    rw [hheader, List.length_take, List.length_drop]
    omega
  obtain ⟨hcontent, hfailure⟩ := collected_ofBytes (bs.drop (gap + blockSize)) size
  have hgap : gap ≤ (bs.take gap).length := by
    rw [List.length_take]
    omega
  rw [members_of_plain hpassed hgap hnext (Nat.le_of_eq hwhole.symm) hzero hread hrole hsparse,
    hcontent, hfailure]

/-- A bundle of one member. -/
theorem members_single {header content : Bytes} {size : Nat} (hheader : header.length = blockSize)
    (hcontent : content.length = paddedSize size) (hzero : header.all (· == 0) = false)
    (hread : readHeader header {} 0 = .ok size) (hrole : role header = .content)
    (hsparse : flagOf header ≠ sparseFlag) :
    members {} (.start (.ofBytes (header ++ content))) =
      [.member ⟨memberName header {}, flagOf header, content.take size, none⟩] := by
  have hbody : (header ++ content).drop (0 + blockSize) = content := by
    rw [Nat.zero_add, ← hheader, List.drop_left]
  have hfirst : header = ((header ++ content).drop 0).take blockSize := by
    rw [List.drop_zero, ← hheader, List.take_left]
  have hend : members {} ⟨.ofBytes content, paddedSize size, 0 + blockSize + paddedSize size⟩ =
      [] := by
    rw [← hcontent]
    exact members_of_end (collect_ofBytes (Nat.le_refl _)) (by simp) (by rw [List.drop_length]; rfl)
  have hmember := members_of_bytes hfirst (by rw [List.length_append]; omega) hzero hread hrole
    hsparse
  rw [hbody] at hmember
  exact hmember.trans (congrArg _ hend)

end AssetUnpack.Tar
