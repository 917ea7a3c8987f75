import AssetUnpack.Bytes

/-!
# Texts and their bytes

A directory is listed in the order of the bytes of its names, and the texts of the
names are compared character by character. The two orders are one: UTF-8 gives a
smaller character a smaller first byte, or as many bytes, whose digits to base 64 are
in the order of the characters.

Bytes below 128 are characters by themselves, so what stands in front of a text in
ASCII can be told apart from the text without decoding it.
-/

namespace AssetUnpack.Bytes

theorem ofNat_cons_lt {x y : Nat} (hx : x < 256) (hy : y < 256) {l m : Bytes} :
    UInt8.ofNat x :: l < UInt8.ofNat y :: m ↔ x < y ∨ x = y ∧ l < m := by
  rw [List.cons_lt_cons_iff, UInt8.lt_iff_toNat_lt, ← UInt8.toNat_inj,
    UInt8.toNat_ofNat_of_lt' hx, UInt8.toNat_ofNat_of_lt' hy]

theorem digit_lt {v w : Nat} (h : v < w) :
    v / 64 < w / 64 ∨ v / 64 = w / 64 ∧ v % 64 < w % 64 := by omega

/-- A smaller character has smaller bytes, whatever comes behind them. -/
theorem utf8EncodeChar_lt {c d : Char} (h : c < d) (l m : Bytes) :
    String.utf8EncodeChar c ++ l < String.utf8EncodeChar d ++ m := by
  have hval : c.val.toNat < d.val.toNat := h
  have hmax : d.val.toNat < 0x110000 := by
    have hvalid := d.valid
    simp only [UInt32.isValidChar, Nat.isValidChar] at hvalid
    omega
  unfold String.utf8EncodeChar
  generalize c.val.toNat = v at hval ⊢
  generalize d.val.toNat = w at hval hmax ⊢
  dsimp only
  have hv : v / 4096 = v / 64 / 64 ∧ v / 262144 = v / 64 / 64 / 64 := by omega
  have hw : w / 4096 = w / 64 / 64 ∧ w / 262144 = w / 64 / 64 / 64 := by omega
  have hfew : v / 64 / 64 / 64 < 8 ∧ w / 64 / 64 / 64 < 8 := by omega
  have hdigits : v / 64 / 64 / 64 < w / 64 / 64 / 64 ∨
      v / 64 / 64 / 64 = w / 64 / 64 / 64 ∧ v / 64 / 64 % 64 < w / 64 / 64 % 64 ∨
      v / 64 / 64 = w / 64 / 64 ∧ v / 64 % 64 < w / 64 % 64 ∨
      v / 64 = w / 64 ∧ v % 64 < w % 64 := by
    rcases digit_lt hval with h | h
    · rcases digit_lt h with h | h
      · exact (digit_lt h).imp_right Or.inl
      · exact Or.inr (Or.inr (Or.inl h))
    · exact Or.inr (Or.inr (Or.inr h))
  rw [hv.1, hv.2, hw.1, hw.2, Nat.mod_eq_of_lt hfew.1, Nat.mod_eq_of_lt hfew.2]
  -- Either character has one of four lengths.
  repeat' split
  all_goals
    simp (disch := omega) only [List.cons_append, List.nil_append, ofNat_cons_lt]
  all_goals omega

theorem flatMap_utf8EncodeChar_lt {cs ds : List Char} (h : cs < ds) :
    cs.flatMap String.utf8EncodeChar < ds.flatMap String.utf8EncodeChar := by
  induction h with
  | @nil d ds =>
      rw [List.flatMap_nil, List.flatMap_cons]
      obtain ⟨b, bs, hb⟩ := List.exists_cons_of_ne_nil (String.utf8EncodeChar_ne_nil (c := d))
      rw [hb, List.cons_append]
      exact List.nil_lt_cons b _
  | @cons c cs ds _ ih =>
      rw [List.flatMap_cons, List.flatMap_cons]
      exact List.append_left_lt ih
  | @rel c cs d ds h =>
      rw [List.flatMap_cons, List.flatMap_cons]
      exact utf8EncodeChar_lt h _ _

theorem ofString_eq (s : String) : ofString s = s.toList.flatMap String.utf8EncodeChar := by
  rw [ofString, String.toUTF8_eq_toByteArray, ← String.utf8Encode_toList]
  simp [List.utf8Encode]

theorem ofString_lt {s t : String} (h : s < t) : ofString s < ofString t := by
  rw [ofString_eq, ofString_eq]
  exact flatMap_utf8EncodeChar_lt h

/-! ## ASCII in front -/

theorem decode_cons_of_ascii {b : UInt8} (hb : b.toNat < 0x80) (bs : Bytes) :
    decode (b :: bs) = some (Char.ofNat b.toNat) :: decode bs := by
  have hnext : nextChar b bs = (some (Char.ofNat b.toNat), bs) := by
    rw [nextChar, lead?, if_pos hb]
    rfl
  rw [decode, hnext]

theorem decode_append_of_ascii {as : Bytes} (has : ∀ b ∈ as, b.toNat < 0x80) (bs : Bytes) :
    decode (as ++ bs) = (as.map fun b => Char.ofNat b.toNat).map some ++ decode bs := by
  induction as with
  | nil => rfl
  | cons b as ih =>
      rw [List.cons_append, decode_cons_of_ascii (has b List.mem_cons_self),
        ih fun b' hb' => has b' (List.mem_cons_of_mem _ hb')]
      rfl

/-- ASCII in front of a byte string is in front of its text, and makes no text of what
is none. -/
theorem text?_append_of_ascii {as : Bytes} (has : ∀ b ∈ as, b.toNat < 0x80) (bs : Bytes) :
    text? (as ++ bs) =
      (text? bs).map fun s => String.ofList (as.map fun b => Char.ofNat b.toNat) ++ s := by
  have hsome (cs : List Char) : (cs.map some).mapM id = some cs := by
    induction cs with
    | nil => rfl
    | cons c cs ih =>
        rw [List.map_cons, List.mapM_cons, ih]
        rfl
  unfold text?
  rw [decode_append_of_ascii has, List.mapM_append, hsome]
  cases (decode bs).mapM id with
  | none => rfl
  | some cs => simp

end AssetUnpack.Bytes
