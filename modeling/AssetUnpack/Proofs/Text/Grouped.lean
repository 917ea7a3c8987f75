import Mathlib.Data.List.Basic
import AssetUnpack.Text.Number
import AssetUnpack.Text.Split

/-!
# Digits in groups of three

A count is grouped by walking over its digits from the right and putting a comma in
front of every fourth one, and turning the outcome around again. `InGroups` says what
comes of it from the left: either up to three digits as they stand, or a text in
groups with a comma and three more digits behind it. Three turns of the walk are one
step of that (`groupFrom_append`), whatever the number of digits.

All that is said of a grouped count is an induction over these two cases, and it comes
to this: without its commas it is the number again, and the commas leave one to three
digits in front and three everywhere else (`grouped_exact`).
-/

namespace AssetUnpack.Text

/-- Digits, and the text in which they stand in groups of three. -/
inductive InGroups : List Char → List Char → Prop
  | short {digits : List Char} (hne : digits ≠ []) (hshort : digits.length ≤ 3) :
      InGroups digits digits
  | more {digits text last : List Char} (h : InGroups digits text) (hlast : last.length = 3) :
      InGroups (digits ++ last) (text ++ ',' :: last)

/-! ## The walk from the right -/

theorem groupFrom_of_le {free : Nat} {cs : List Char} (h : cs.length ≤ free) :
    groupFrom free cs = cs := by
  induction cs generalizing free with
  | nil => cases free <;> rfl
  | cons c cs ih =>
      rw [List.length_cons] at h
      obtain ⟨free, rfl⟩ : ∃ k, free = k + 1 := Nat.exists_eq_add_one.mpr (by omega)
      rw [groupFrom, ih (by omega)]

/-- The walk starts again behind a full group. -/
theorem groupFrom_append (block : List Char) {rest : List Char} (hne : rest ≠ []) :
    groupFrom block.length (block ++ rest) = block ++ ',' :: groupFrom 3 rest := by
  induction block with
  | nil =>
      obtain ⟨c, cs, rfl⟩ := List.exists_cons_of_ne_nil hne
      rfl
  | cons c block ih => rw [List.length_cons, List.cons_append, groupFrom, ih, List.cons_append]

theorem inGroups_groupFrom {cs : List Char} (hne : cs ≠ []) :
    InGroups cs.reverse (groupFrom 3 cs).reverse := by
  by_cases hshort : cs.length ≤ 3
  · rw [groupFrom_of_le hshort]
    exact .short (by simpa using hne) (by simpa using hshort)
  have hblock : (cs.take 3).length = 3 := by
    rw [List.length_take]
    omega
  have hrest : cs.drop 3 ≠ [] := by
    rw [ne_eq, List.drop_eq_nil_iff]
    exact hshort
  have hwalk : groupFrom 3 cs = cs.take 3 ++ ',' :: groupFrom 3 (cs.drop 3) := by
    have h := groupFrom_append (cs.take 3) hrest
    rwa [hblock, List.take_append_drop] at h
  -- The three elements that the walk meets first are the last three digits of the text.
  have hlast : (cs.take 3).reverse.length = 3 := List.length_reverse.trans hblock
  have hmore := (inGroups_groupFrom hrest).more hlast
  rw [← List.reverse_append, List.take_append_drop] at hmore
  rw [hwalk, List.reverse_append, List.reverse_cons, List.append_assoc]
  exact hmore
termination_by cs.length
decreasing_by
  rw [List.length_drop]
  omega

theorem inGroups_grouped (n : Nat) : InGroups (decimal n) (grouped n).toList := by
  have hne : (decimal n).reverse ≠ [] := List.reverse_ne_nil_iff.mpr Nat.toDigits_ne_nil
  have h := inGroups_groupFrom hne
  rw [List.reverse_reverse] at h
  rw [grouped, String.toList_ofList]
  exact h

/-! ## What groups are -/

namespace InGroups

variable {digits text : List Char}

theorem ne_nil (h : InGroups digits text) : text ≠ [] := by
  cases h with
  | short hne => exact hne
  | more => simp

theorem digits_ne_nil (h : InGroups digits text) : digits ≠ [] := by
  cases h with
  | short hne => exact hne
  | more h hlast =>
      refine List.append_ne_nil_of_right_ne_nil _ (List.length_pos_iff.mp ?_)
      omega

theorem filter_comma (h : InGroups digits text) (hfree : ',' ∉ digits) :
    text.filter (· ≠ ',') = digits := by
  have hkeep : ∀ {cs : List Char}, ',' ∉ cs → cs.filter (· ≠ ',') = cs := by
    intro cs hcs
    rw [List.filter_eq_self]
    intro c hc
    simpa using ne_of_mem_of_not_mem hc hcs
  induction h with
  | short => exact hkeep hfree
  | more h hlast ih =>
      rw [List.mem_append, not_or] at hfree
      rw [List.filter_append, ih hfree.1, List.filter_cons_of_neg (by simp), hkeep hfree.2]

/-- The commas stand in front of three digits each, and one to three digits are left in
front of the first. -/
theorem splitOn_comma (h : InGroups digits text) (hfree : ',' ∉ digits) :
    ∃ first rest, splitOn ',' text = first :: rest ∧ (1 ≤ first.length ∧ first.length ≤ 3) ∧
      (∀ group ∈ rest, group.length = 3) ∧ ∀ group ∈ first :: rest, group ⊆ digits := by
  induction h with
  | @short digits hne hshort =>
      refine ⟨digits, [], splitOn_of_not_mem hfree, ⟨List.length_pos_iff.mpr hne, hshort⟩, ?_, ?_⟩
      · simp
      · simp
  | @more digits text last h hlast ih =>
      rw [List.mem_append, not_or] at hfree
      obtain ⟨first, rest, hsplit, hfirst, hrest, hsub⟩ := ih hfree.1
      refine ⟨first, rest ++ [last], ?_, hfirst, ?_, ?_⟩
      · rw [splitOn_append, hsplit, splitOn_of_not_mem hfree.2, List.cons_append]
      · intro group hgroup
        rcases List.mem_append.mp hgroup with hgroup | hgroup
        · exact hrest group hgroup
        · rw [List.mem_singleton.mp hgroup]
          exact hlast
      · intro group hgroup
        rw [← List.cons_append] at hgroup
        rcases List.mem_append.mp hgroup with hgroup | hgroup
        · exact List.Subset.trans (hsub group hgroup) (List.subset_append_left _ _)
        · rw [List.mem_singleton.mp hgroup]
          exact List.subset_append_right _ _

/-- A comma is put between digits, never in front of them or behind. -/
theorem ends_eq (h : InGroups digits text) :
    text.head? = digits.head? ∧ text.getLast? = digits.getLast? := by
  induction h with
  | short => exact ⟨rfl, rfl⟩
  | @more digits text last h hlast ih =>
      have hne : last ≠ [] := List.length_pos_iff.mp (by omega)
      constructor
      · rw [List.head?_append_of_ne_nil _ h.ne_nil, ih.1,
          List.head?_append_of_ne_nil _ h.digits_ne_nil]
      · rw [List.getLast?_append_of_ne_nil _ (List.cons_ne_nil _ _),
          List.getLast?_cons_of_ne_nil hne, List.getLast?_append_of_ne_nil _ hne]

theorem count_comma (h : InGroups digits text) (hfree : ',' ∉ digits) :
    text.count ',' = (digits.length - 1) / 3 := by
  induction h with
  | short hne hshort =>
      rw [List.count_eq_zero.mpr hfree]
      omega
  | more h hlast ih =>
      rw [List.mem_append, not_or] at hfree
      have hpos := List.length_pos_iff.mpr h.digits_ne_nil
      rw [List.count_append, ih hfree.1, List.count_cons_self, List.count_eq_zero.mpr hfree.2,
        List.length_append, hlast]
      omega

end InGroups

/-! ## Counts -/

theorem comma_not_mem_decimal (n : Nat) : ',' ∉ decimal n := fun hmem =>
  absurd (isDigit_decimal _ hmem) (by decide)

theorem decimal_injective : Function.Injective decimal := by
  intro m n h
  have hvalue := congrArg (Nat.ofDigitChars 10 · 0) h
  simpa only [decimal, Nat.ofDigitChars_ten_toDigits] using hvalue

/-- Without its commas a grouped count is the number in decimal. Between them stand
groups of digits, the first of one to three and every other one of three; so it begins and
ends with a digit, `d` digits have `(d - 1) / 3` commas, and no two numbers are written
alike. -/
theorem grouped_exact :
    (∀ n, String.ofList ((grouped n).toList.filter (· ≠ ',')) = toString n ∧
      (∃ first rest, splitOn ',' (grouped n).toList = first :: rest ∧
        (1 ≤ first.length ∧ first.length ≤ 3) ∧ (∀ group ∈ rest, group.length = 3) ∧
        ∀ group ∈ first :: rest, ∀ c ∈ group, c.isDigit = true) ∧
      (∃ c, (grouped n).toList.head? = some c ∧ c.isDigit = true) ∧
      (∃ c, (grouped n).toList.getLast? = some c ∧ c.isDigit = true) ∧
      (grouped n).toList.count ',' = ((toString n).length - 1) / 3) ∧
    Function.Injective grouped := by
  refine ⟨fun n => ?_, fun m n h => ?_⟩
  · have hgroups := inGroups_grouped n
    have hfree := comma_not_mem_decimal n
    obtain ⟨hhead, hlast⟩ := hgroups.ends_eq
    have hne : decimal n ≠ [] := hgroups.digits_ne_nil
    have hlength : (toString n).length = (decimal n).length := String.length_ofList
    refine ⟨?_, ?_, ⟨(decimal n).head hne, ?_, ?_⟩, ⟨(decimal n).getLast hne, ?_, ?_⟩, ?_⟩
    · rw [hgroups.filter_comma hfree]
      rfl
    · obtain ⟨first, rest, hsplit, hfirst, hrest, hsub⟩ := hgroups.splitOn_comma hfree
      exact ⟨first, rest, hsplit, hfirst, hrest,
        fun group hgroup c hc => isDigit_decimal c (hsub group hgroup hc)⟩
    · rw [hhead, List.head?_eq_some_head hne]
    · exact isDigit_decimal _ (List.head_mem hne)
    · rw [hlast, List.getLast?_eq_some_getLast hne]
    · exact isDigit_decimal _ (List.getLast_mem hne)
    · rw [hgroups.count_comma hfree, hlength]
  · have hdigits := (inGroups_grouped m).filter_comma (comma_not_mem_decimal m)
    rw [h, (inGroups_grouped n).filter_comma (comma_not_mem_decimal n)] at hdigits
    exact decimal_injective hdigits.symm

example : grouped 999 = "999" ∧ grouped 1000 = "1,000" ∧ grouped 1234567 = "1,234,567" := by
  decide

end AssetUnpack.Text
