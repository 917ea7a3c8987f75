import Mathlib.Data.List.TakeWhile
import Mathlib.Tactic.SplitIfs
import AssetUnpack.Proofs.Json.Reader

/-!
# A rendered document is read back

Whatever a document holds, reading its text gives what the document says. For every
kind of part there is a lemma that reads it in front of any rest; of the rest a number
has to know that it does not go on in it (`Parted`).
-/

namespace AssetUnpack

open Json

mutual

/-- What a document says. -/
def JsonValue.toJson : JsonValue → Json
  | .null => .null
  | .text s => .text s
  | .number n => .number ⟨n, 0⟩
  | .array items => .array (itemsToJson items)
  | .object members => .object (membersToJson members)

def JsonValue.itemsToJson : List JsonValue → List Json
  | [] => []
  | item :: items => item.toJson :: itemsToJson items

def JsonValue.membersToJson : List (String × JsonValue) → List (String × Json)
  | [] => []
  | (name, value) :: members => (name, value.toJson) :: membersToJson members

end

namespace JsonValue

/-! ## Strings -/

theorem hexValue?_digitChar : ∀ n < 16, hexValue? (Nat.digitChar n) = some n := by decide

theorem readUnit_control {n : Nat} (h : n < 0x20) (cs : List Char) :
    readUnit ('0' :: '0' :: hexDigit (n / 16) :: hexDigit (n % 16) :: cs) = some (n, cs) := by
  have hzero : hexValue? '0' = some 0 := by decide
  have hhigh := hexValue?_digitChar (n / 16) (by omega)
  have hlow := hexValue?_digitChar (n % 16) (by omega)
  have hn : 16 * (n / 16) + n % 16 = n := Nat.div_add_mod n 16
  simp only [readUnit, hexDigit, hzero, hhigh, hlow, Option.bind_eq_bind, Option.bind_some]
  simp [hn]

theorem readEscape_control {c : Char} (h : c.toNat < 0x20) (cs : List Char) :
    readEscape ('u' :: '0' :: '0' :: hexDigit (c.toNat / 16) :: hexDigit (c.toNat % 16) :: cs) =
      some (c, cs) := by
  have hplane : c.toNat < 0xD800 ∨ 0xDFFF < c.toNat := by omega
  rw [readEscape, if_pos rfl]
  simp only [readCodePoint, readUnit_control h, Option.bind_eq_bind, Option.bind_some,
    if_pos hplane, Char.ofNat_toNat]

theorem readChars_escape {c : Char} {es cs : List Char} (h : readEscape es = some (c, cs))
    (steps : Nat) :
    readChars (steps + 1) ('\\' :: es) =
      (readChars steps cs).map fun (ds, rest) => (c :: ds, rest) := by
  have hquote : ¬ '\\' = '\x22' := by decide
  rw [readChars, if_neg hquote, if_pos rfl, h]
  simp only [Option.bind_eq_bind, Option.bind_some]
  cases readChars steps cs <;> rfl

theorem readChars_plain {c : Char} (hquote : c ≠ '\x22') (hback : c ≠ '\\')
    (hcontrol : ¬ c.toNat < 0x20) (steps : Nat) (cs : List Char) :
    readChars (steps + 1) (c :: cs) =
      (readChars steps cs).map fun (ds, rest) => (c :: ds, rest) := by
  rw [readChars, if_neg hquote, if_neg hback, if_neg hcontrol]
  cases readChars steps cs <;> rfl

/-- One character of a string is read in one step. -/
theorem readChars_escapeChar (c : Char) (steps : Nat) (cs : List Char) :
    readChars (steps + 1) (escapeChar c ++ cs) =
      (readChars steps cs).map fun (ds, rest) => (c :: ds, rest) := by
  unfold escapeChar
  split_ifs with hquote hback h h h h h hcontrol
  · exact readChars_escape (by rw [hquote]; rfl) steps
  · exact readChars_escape (by rw [hback]; rfl) steps
  · exact readChars_escape (by rw [h]; rfl) steps
  · exact readChars_escape (by rw [h]; rfl) steps
  · exact readChars_escape (by rw [h]; rfl) steps
  · exact readChars_escape (by rw [h]; rfl) steps
  · exact readChars_escape (by rw [h]; rfl) steps
  · exact readChars_escape (readEscape_control hcontrol cs) steps
  · exact readChars_plain hquote hback hcontrol steps cs

theorem readChars_flatMap (ds : List Char) {steps : Nat} (h : ds.length < steps) (cs : List Char) :
    readChars steps (ds.flatMap escapeChar ++ '\x22' :: cs) = some (ds, cs) := by
  induction ds generalizing steps with
  | nil =>
      obtain ⟨steps, rfl⟩ : ∃ k, steps = k + 1 := ⟨steps - 1, by simp at h; omega⟩
      rfl
  | cons d ds ih =>
      obtain ⟨steps, rfl⟩ : ∃ k, steps = k + 1 := ⟨steps - 1, by simp at h; omega⟩
      rw [List.flatMap_cons, List.append_assoc, readChars_escapeChar, ih (by simpa using h)]
      rfl

theorem escapeChar_ne_nil (c : Char) : escapeChar c ≠ [] := by
  unfold escapeChar
  repeat' split
  all_goals exact List.cons_ne_nil _ _

theorem length_le_flatMap (ds : List Char) : ds.length ≤ (ds.flatMap escapeChar).length := by
  induction ds with
  | nil => exact Nat.le_refl _
  | cons d ds ih =>
      have hone := List.length_pos_iff.mpr (escapeChar_ne_nil d)
      rw [List.flatMap_cons, List.length_append, List.length_cons]
      omega

theorem readText_renderText (s : String) (cs : List Char) :
    ∃ body, renderText s ++ cs = '\x22' :: body ∧ readText body = some (s, cs) := by
  refine ⟨s.toList.flatMap escapeChar ++ '\x22' :: cs, by simp [renderText], ?_⟩
  have hlength := length_le_flatMap s.toList
  have hsteps : s.toList.length < (s.toList.flatMap escapeChar ++ '\x22' :: cs).length := by
    rw [List.length_append, List.length_cons]
    omega
  rw [readText, readChars_flatMap _ hsteps]
  exact congrArg (fun t => some (t, cs)) (String.ofList_toList)

/-! ## Numbers -/

/-- Whether a number that ends here does not go on. -/
def Parted (rest : List Char) : Prop :=
  ∀ c ∈ rest.head?, c.isDigit = false ∧ c ≠ '.' ∧ c ≠ 'e' ∧ c ≠ 'E'

theorem parted_cons {c : Char} (cs : List Char)
    (h : c.isDigit = false ∧ c ≠ '.' ∧ c ≠ 'e' ∧ c ≠ 'E') : Parted (c :: cs) := by
  intro d hd
  rw [← Option.some.inj hd]
  exact h

/-- No digits of a positive number begin with a zero. -/
theorem head?_decimal {n : Nat} (hn : 0 < n) : (Text.decimal n).head? ≠ some '0' := by
  induction n using Nat.strongRecOn with
  | ind n ih =>
      rw [Text.decimal, Nat.toDigits_eq_if (by omega)]
      split
      · intro h
        have hzero := Nat.digitChar_eq_zero.mp (Option.some.inj h)
        omega
      · have hfront := ih (n / 10) (by omega) (by omega)
        obtain ⟨d, ds, hds⟩ := List.exists_cons_of_ne_nil (Nat.toDigits_ne_nil (n := n / 10))
        rw [Text.decimal, hds] at hfront
        rw [hds]
        exact hfront

section Number

variable {rest : List Char} (hrest : Parted rest)

include hrest

theorem readDigits_decimal (n : Nat) :
    readDigits (Text.decimal n ++ rest) = some (Text.decimal n, rest) := by
  have hstop : rest.takeWhile Char.isDigit = [] ∧ rest.dropWhile Char.isDigit = rest := by
    cases rest with
    | nil => exact ⟨rfl, rfl⟩
    | cons c cs =>
        have hc := (hrest c rfl).1
        simp [hc]
  have hne : Text.decimal n ≠ [] := Nat.toDigits_ne_nil
  rw [readDigits, List.takeWhile_append_of_pos Text.isDigit_decimal,
    List.dropWhile_append_of_pos Text.isDigit_decimal, hstop.1, hstop.2, List.append_nil,
    if_neg hne]

theorem readWhole_decimal (n : Nat) :
    readWhole (Text.decimal n ++ rest) = some (Text.decimal n, rest) := by
  by_cases hn : n = 0
  · subst hn
    rfl
  · have hhead := head?_decimal (Nat.pos_of_ne_zero hn)
    rw [← readDigits_decimal hrest n]
    cases hds : Text.decimal n with
    | nil => exact absurd hds Nat.toDigits_ne_nil
    | cons d ds =>
        rw [hds] at hhead
        rw [List.cons_append, readWhole]
        rintro cs h
        exact hhead (congrArg some (List.cons.inj h).1)

theorem readUnsigned_decimal (n : Nat) :
    readUnsigned (Text.decimal n ++ rest) = some (⟨n, 0⟩, rest) := by
  have hfraction : readFraction rest = some ([], rest) := by
    rw [readFraction]
    rintro cs rfl
    exact (hrest '.' rfl).2.1 rfl
  have hexponent : readExponent rest = some (0, rest) := by
    cases rest with
    | nil => rfl
    | cons c cs =>
        obtain ⟨-, -, he, hE⟩ := hrest c rfl
        rw [readExponent, if_neg (by simp [he, hE])]
  rw [readUnsigned, readWhole_decimal hrest]
  simp only [Option.bind_eq_bind, Option.bind_some, hfraction, hexponent, List.append_nil]
  rw [Text.decimal, Nat.ofDigitChars_ten_toDigits]
  rfl

theorem readNumber_decimal (n : Nat) :
    readNumber (Text.decimal n ++ rest) = some (⟨n, 0⟩, rest) := by
  rw [← readUnsigned_decimal hrest n, readNumber]
  intro cs h
  cases hds : Text.decimal n with
  | nil => exact absurd hds Nat.toDigits_ne_nil
  | cons d ds =>
      rw [hds] at h
      have hdigit : d.isDigit = true :=
        Text.isDigit_decimal d (by rw [hds]; exact List.mem_cons_self)
      rw [(List.cons.inj h).1] at hdigit
      exact absurd hdigit (by decide)

end Number

/-! ## Values -/

theorem skip_newline (level : Nat) (cs : List Char) : skip (newline level ++ cs) = skip cs := by
  have hblank : ∀ c ∈ newline level, isBlank c = true := by
    intro c hc
    rcases List.mem_cons.mp hc with rfl | hc
    · rfl
    · rw [List.eq_of_mem_replicate hc]
      rfl
  exact List.dropWhile_append_of_pos hblank

theorem skip_of_not_isBlank {c : Char} (h : isBlank c = false) (cs : List Char) :
    skip (c :: cs) = c :: cs := by
  rw [skip, List.dropWhile_cons, if_neg (by rw [h]; exact Bool.false_ne_true)]

theorem readValue_newline (steps level : Nat) (cs : List Char) :
    readValue steps (newline level ++ cs) = readValue steps cs := by
  cases steps with
  | zero => rfl
  | succ steps => rw [readValue, readValue, skip_newline]

theorem readItems_newline (steps level : Nat) (cs : List Char) :
    readItems steps (newline level ++ cs) = readItems steps cs := by
  cases steps with
  | zero => rfl
  | succ steps => rw [readItems, readItems, readValue_newline]

theorem readMembers_newline (steps level : Nat) (cs : List Char) :
    readMembers steps (newline level ++ cs) = readMembers steps cs := by
  cases steps with
  | zero => rfl
  | succ steps => rw [readMembers, readMembers, skip_newline]

theorem readValue_text (s : String) (steps : Nat) (cs : List Char) :
    readValue (steps + 1) (renderText s ++ cs) = some (.text s, cs) := by
  obtain ⟨body, hbody, hread⟩ := readText_renderText s cs
  rw [hbody, readValue, skip_of_not_isBlank (by decide)]
  simp only [if_pos]
  rw [hread]
  rfl

theorem ne_of_isDigit {d c : Char} (hd : d.isDigit = true) (hc : c.isDigit = false) : d ≠ c := by
  rintro rfl
  rw [hd] at hc
  cases hc

theorem isBlank_of_isDigit {d : Char} (hd : d.isDigit = true) : isBlank d = false := by
  have hspace := ne_of_isDigit (c := ' ') hd (by decide)
  have htab := ne_of_isDigit (c := '\t') hd (by decide)
  have hline := ne_of_isDigit (c := '\n') hd (by decide)
  have hreturn := ne_of_isDigit (c := '\r') hd (by decide)
  simp [isBlank, hspace, htab, hline, hreturn]

theorem decimal_eq_cons (n : Nat) : ∃ d ds, Text.decimal n = d :: ds ∧ d.isDigit = true := by
  obtain ⟨d, ds, hds⟩ := List.exists_cons_of_ne_nil (Nat.toDigits_ne_nil (n := n) (b := 10))
  exact ⟨d, ds, hds, Text.isDigit_decimal d (by rw [Text.decimal, hds]; exact List.mem_cons_self)⟩

theorem readValue_number (n steps : Nat) {rest : List Char} (hrest : Parted rest) :
    readValue (steps + 1) (Text.decimal n ++ rest) = some (.number ⟨n, 0⟩, rest) := by
  have hread := readNumber_decimal hrest n
  obtain ⟨d, ds, hds, hd⟩ := decimal_eq_cons n
  rw [hds, List.cons_append] at hread ⊢
  rw [readValue, skip_of_not_isBlank (isBlank_of_isDigit hd)]
  simp only [if_neg (ne_of_isDigit (c := '\x22') hd (by decide)),
    if_neg (ne_of_isDigit (c := '[') hd (by decide)),
    if_neg (ne_of_isDigit (c := '\x7b') hd (by decide)),
    if_neg (ne_of_isDigit (c := 'n') hd (by decide)),
    if_neg (ne_of_isDigit (c := 't') hd (by decide)),
    if_neg (ne_of_isDigit (c := 'f') hd (by decide)), hread]
  rfl

/-- How a document begins. -/
theorem render_eq_cons (v : JsonValue) (level : Nat) :
    ∃ c cs, render level v = c :: cs ∧ isBlank c = false ∧ c ≠ ']' := by
  match v with
  | .null | .array [] | .object [] => exact ⟨_, _, by rw [render], by decide, by decide⟩
  | .text s => exact ⟨_, _, by rw [render, renderText]; rfl, by decide, by decide⟩
  | .array (_ :: _) => exact ⟨_, _, by rw [render]; rfl, by decide, by decide⟩
  | .object ((_, _) :: _) => exact ⟨_, _, by rw [render]; rfl, by decide, by decide⟩
  | .number n =>
      obtain ⟨d, ds, hds, hd⟩ := decimal_eq_cons n
      exact ⟨d, ds, by rw [render, hds], isBlank_of_isDigit hd, ne_of_isDigit hd (by decide)⟩

theorem length_render_pos (v : JsonValue) (level : Nat) : 0 < (render level v).length := by
  obtain ⟨c, cs, h, -⟩ := render_eq_cons v level
  rw [h]
  exact Nat.succ_pos _

/-- What stands behind an element or a member, unless there is another one. -/
theorem parted_newline (level : Nat) (cs : List Char) : Parted (newline level ++ cs) :=
  parted_cons _ (by decide)

section Containers

variable {steps level : Nat} {cs rest : List Char}

theorem readValue_array {c : Char} (hblank : isBlank c = false) (hc : c ≠ ']') :
    readValue (steps + 1) ('[' :: (newline level ++ c :: cs)) =
      (readItems steps (c :: cs)).map fun (items, cs) => (.array items, cs) := by
  have hbracket : ¬ '[' = '\x22' := by decide
  rw [readValue, skip_of_not_isBlank (by decide)]
  simp only [if_neg hbracket, if_pos, skip_newline, skip_of_not_isBlank hblank]
  split
  · next h => exact absurd (List.cons.inj h).1 hc
  · rfl

theorem readValue_object :
    readValue (steps + 1) ('\x7b' :: (newline level ++ '\x22' :: cs)) =
      (readMembers steps ('\x22' :: cs)).map fun (members, cs) => (.object members, cs) := by
  have hquote : ¬ '\x7b' = '\x22' := by decide
  have hbracket : ¬ '\x7b' = '[' := by decide
  rw [readValue, skip_of_not_isBlank (by decide)]
  simp only [if_neg hquote, if_neg hbracket, if_pos, skip_newline,
    skip_of_not_isBlank (c := '\x22') (by decide)]
  rfl

theorem readItems_last {item : Json}
    (h : readValue steps cs = some (item, newline level ++ ']' :: rest)) :
    readItems (steps + 1) cs = some ([item], rest) := by
  rw [readItems, h]
  simp only [Option.bind_eq_bind, Option.bind_some, skip_newline,
    skip_of_not_isBlank (c := ']') (by decide)]

theorem readItems_next {item : Json}
    (h : readValue steps cs = some (item, ',' :: (newline level ++ rest))) :
    readItems (steps + 1) cs =
      (readItems steps rest).map fun (items, cs) => (item :: items, cs) := by
  rw [readItems, h]
  simp only [Option.bind_eq_bind, Option.bind_some,
    skip_of_not_isBlank (c := ',') (by decide), readItems_newline]
  cases readItems steps rest <;> rfl

theorem readValue_blank (steps : Nat) (cs : List Char) :
    readValue steps (' ' :: cs) = readValue steps cs := by
  cases steps with
  | zero => rfl
  | succ steps => rw [readValue, readValue]; rfl

theorem readMembers_last {name : String} {value : Json}
    (h : readValue steps cs = some (value, newline level ++ '\x7d' :: rest)) :
    readMembers (steps + 1) (renderText name ++ ([':', ' '] ++ cs)) =
      some ([(name, value)], rest) := by
  obtain ⟨body, hbody, hread⟩ := readText_renderText name ([':', ' '] ++ cs)
  have hcolon : expect [':'] (skip ([':', ' '] ++ cs)) = some (' ' :: cs) := rfl
  rw [hbody, readMembers, skip_of_not_isBlank (by decide)]
  simp only [hread, hcolon, readValue_blank, h, Option.bind_eq_bind, Option.bind_some,
    skip_newline, skip_of_not_isBlank (c := '\x7d') (by decide)]

theorem readMembers_next {name : String} {value : Json}
    (h : readValue steps cs = some (value, ',' :: (newline level ++ rest))) :
    readMembers (steps + 1) (renderText name ++ ([':', ' '] ++ cs)) =
      (readMembers steps rest).map fun (members, cs) => ((name, value) :: members, cs) := by
  obtain ⟨body, hbody, hread⟩ := readText_renderText name ([':', ' '] ++ cs)
  have hcolon : expect [':'] (skip ([':', ' '] ++ cs)) = some (' ' :: cs) := rfl
  rw [hbody, readMembers, skip_of_not_isBlank (by decide)]
  simp only [hread, hcolon, readValue_blank, h, Option.bind_eq_bind, Option.bind_some,
    skip_of_not_isBlank (c := ',') (by decide), readMembers_newline]
  cases readMembers steps rest <;> rfl

end Containers

mutual

/-- A document is read back from its text, in front of anything. -/
theorem readValue_render (v : JsonValue) (level steps : Nat) {rest : List Char}
    (hsteps : 2 * (render level v).length ≤ steps) (hrest : Parted rest) :
    readValue steps (render level v ++ rest) = some (v.toJson, rest) := by
  have hpos := length_render_pos v level
  obtain ⟨steps, rfl⟩ : ∃ k, steps = k + 1 := ⟨steps - 1, by omega⟩
  match v with
  | .null | .array [] | .object [] =>
      rw [render]
      rfl
  | .text s =>
      rw [render]
      exact readValue_text s steps rest
  | .number n =>
      rw [render]
      exact readValue_number n steps hrest
  | .array (item :: items) =>
      rw [render] at hsteps ⊢
      simp only [List.length_append, List.length_cons, List.length_nil] at hsteps
      have hitems := readItems_render item items (level + 1) level steps (by omega) rest
      obtain ⟨c, cs, hcs, hblank, hc⟩ := render_eq_cons item (level + 1)
      simp only [hcs, List.cons_append, List.append_assoc, List.nil_append] at hitems ⊢
      rw [readValue_array hblank hc, hitems]
      rfl
  | .object ((name, value) :: members) =>
      rw [render] at hsteps ⊢
      simp only [List.length_append, List.length_cons, List.length_nil] at hsteps
      have hmembers := readMembers_render name value members (level + 1) level steps (by omega) rest
      simp only [renderText, List.cons_append, List.append_assoc, List.nil_append] at hmembers ⊢
      rw [readValue_object, hmembers]
      rfl
termination_by steps

/-- The elements of a document, the first of them behind its bracket. -/
theorem readItems_render (item : JsonValue) (items : List JsonValue) (level close steps : Nat)
    (hsteps : 2 * ((render level item).length + (renderItems level items).length) + 1 ≤ steps)
    (rest : List Char) :
    readItems steps
        (render level item ++ (renderItems level items ++ (newline close ++ ']' :: rest))) =
      some (item.toJson :: itemsToJson items, rest) := by
  obtain ⟨steps, rfl⟩ : ∃ k, steps = k + 1 := ⟨steps - 1, by omega⟩
  match items with
  | [] =>
      exact readItems_last
        (readValue_render item level steps (by omega) (parted_newline close (']' :: rest)))
  | next :: items =>
      rw [renderItems] at hsteps ⊢
      simp only [List.length_append, List.length_cons] at hsteps
      have hnext := readItems_render next items level close steps (by omega) rest
      have hitem := readValue_render item level steps (by omega)
        (parted_cons (c := ',') (newline level ++ (render level next ++
          (renderItems level items ++ (newline close ++ ']' :: rest)))) (by decide))
      simp only [List.cons_append, List.append_assoc]
      rw [readItems_next hitem, hnext]
      rfl
termination_by steps

/-- The members of a document, the first of them behind its brace. -/
theorem readMembers_render (name : String) (value : JsonValue)
    (members : List (String × JsonValue)) (level close steps : Nat)
    (hsteps : 2 * ((render level value).length + (renderMembers level members).length) + 1 ≤ steps)
    (rest : List Char) :
    readMembers steps
        (renderText name ++ ([':', ' '] ++ (render level value ++
          (renderMembers level members ++ (newline close ++ '\x7d' :: rest))))) =
      some ((name, value.toJson) :: membersToJson members, rest) := by
  obtain ⟨steps, rfl⟩ : ∃ k, steps = k + 1 := ⟨steps - 1, by omega⟩
  match members with
  | [] =>
      exact readMembers_last
        (readValue_render value level steps (by omega) (parted_newline close ('\x7d' :: rest)))
  | (next, inner) :: members =>
      rw [renderMembers] at hsteps ⊢
      simp only [List.length_append, List.length_cons] at hsteps
      have hnext := readMembers_render next inner members level close steps (by omega) rest
      have hvalue := readValue_render value level steps (by omega)
        (parted_cons (c := ',') (newline level ++ (renderText next ++ ([':', ' '] ++
          (render level inner ++ (renderMembers level members ++
            (newline close ++ '\x7d' :: rest)))))) (by decide))
      have happend : ',' :: newline level ++ renderText next ++ [':', ' '] ++ render level inner ++
            renderMembers level members ++ (newline close ++ '\x7d' :: rest) =
          ',' :: (newline level ++ (renderText next ++ ([':', ' '] ++ (render level inner ++
            (renderMembers level members ++ (newline close ++ '\x7d' :: rest)))))) := by
        simp only [List.cons_append, List.append_assoc]
      rw [happend, readMembers_next hvalue, hnext]
      rfl
termination_by steps

end

theorem parted_of_isBlank {blanks : List Char} (h : ∀ c ∈ blanks, isBlank c = true) :
    Parted blanks := by
  intro c hc
  have hblank : isBlank c = true := h c (List.mem_of_mem_head? hc)
  simp only [isBlank, Bool.or_eq_true, decide_eq_true_eq] at hblank
  rcases hblank with ((rfl | rfl) | rfl) | rfl <;> decide

/-- A printed document says what the document says, whatever blanks follow. -/
theorem read_pretty (v : JsonValue) {blanks : String} (h : ∀ c ∈ blanks.toList, isBlank c = true) :
    Json.read (v.pretty ++ blanks) = some v.toJson := by
  have hchars : (v.pretty ++ blanks).toList = render 0 v ++ blanks.toList := by
    rw [String.toList_append, pretty, String.toList_ofList]
  have hread := readValue_render v 0 (2 * (render 0 v ++ blanks.toList).length)
    (by rw [List.length_append]; omega) (parted_of_isBlank h)
  have hskip : skip blanks.toList = [] := List.dropWhile_eq_nil_iff.mpr h
  rw [Json.read, hchars, hread]
  simp only [hskip, if_pos]

theorem itemsToJson_eq_map (items : List JsonValue) : itemsToJson items = items.map toJson := by
  induction items with
  | nil => rfl
  | cons item items ih => rw [itemsToJson, ih, List.map_cons]

end JsonValue

end AssetUnpack
