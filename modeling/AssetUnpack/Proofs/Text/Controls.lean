import Mathlib.Tactic.SplitIfs
import AssetUnpack.Text.Quoted

/-!
# Controls in text

A control that reaches a terminal or a log can do more than be read there, so what
comes from outside is shown in a form that holds none. The two escaped forms hold
none whatever the text is; any other text shows the controls that its parts have.
-/

namespace AssetUnpack.Text

/-- Whether a character is one of the ASCII controls. -/
def IsControl (c : Char) : Prop := c.toNat < 0x20 ∨ c.toNat = 0x7F

instance : DecidablePred IsControl := fun _ => inferInstanceAs (Decidable (_ ∨ _))

/-- The controls in a text, in order. -/
def controls (s : String) : List Char := s.toList.filter (IsControl ·)

theorem controls_append (s t : String) : controls (s ++ t) = controls s ++ controls t := by
  rw [controls, String.toList_append, List.filter_append]
  rfl

theorem controls_ofList_eq_nil {cs : List Char} :
    controls (String.ofList cs) = [] ↔ ∀ c ∈ cs, ¬ IsControl c := by
  simp [controls, List.filter_eq_nil_iff]

/-- Of characters that are given, this evaluates. -/
theorem not_isControl_of_filter {cs : List Char} (h : cs.filter (IsControl ·) = []) :
    ∀ c ∈ cs, ¬ IsControl c := by
  simpa only [List.filter_eq_nil_iff, decide_eq_true_eq] using h

theorem isVisible_eq_false_of_isControl {c : Char} (h : IsControl c) : isVisible c = false := by
  rcases h with h | h
  · exact isVisible_eq_false_of_control h
  · rw [isVisible, h]
    rfl

theorem not_isControl_digitChar : ∀ n < 16, ¬ IsControl (Nat.digitChar n) := by decide

theorem not_isControl_of_mem_toDigits (n : Nat) : ∀ c ∈ Nat.toDigits 16 n, ¬ IsControl c := by
  induction n using Nat.strongRecOn with
  | ind n ih =>
      rw [Nat.toDigits_eq_if (by omega)]
      split
      · next hn =>
          intro c hc
          rw [List.mem_singleton.mp hc]
          exact not_isControl_digitChar n hn
      · intro c hc
        rcases List.mem_append.mp hc with hc | hc
        · exact ih (n / 16) (by omega) c hc
        · rw [List.mem_singleton.mp hc]
          exact not_isControl_digitChar _ (Nat.mod_lt n (by omega))

theorem not_isControl_of_mem_numbered (c : Char) : ∀ d ∈ numbered c, ¬ IsControl d := by
  have hfront : ∀ d ∈ ['\\', 'u', '\x7b'], ¬ IsControl d := not_isControl_of_filter rfl
  have hend : ∀ d ∈ ['\x7d'], ¬ IsControl d := not_isControl_of_filter rfl
  intro d hd
  rcases List.mem_append.mp hd with hd | hd
  · rcases List.mem_append.mp (show d ∈ ['\\', 'u', '\x7b'] ++ Nat.toDigits 16 c.toNat from hd)
      with hd | hd
    · exact hfront d hd
    · exact not_isControl_of_mem_toDigits _ d hd
  · exact hend d hd

/-- One character of an escaped form is written without controls, whichever the form
is. -/
theorem not_isControl_of_mem_escapeChar (rule : EscapeRule) (c : Char) :
    ∀ d ∈ escapeChar rule c, ¬ IsControl d := by
  unfold escapeChar
  split_ifs with _ _ _ _ _ _ _ _ hvisible
  iterate 7 (· exact not_isControl_of_filter rfl)
  · exact not_isControl_of_mem_numbered c
  · intro d hd hcontrol
    rw [List.mem_singleton.mp hd] at hcontrol
    rw [isVisible_eq_false_of_isControl hcontrol] at hvisible
    exact Bool.false_ne_true hvisible
  · exact not_isControl_of_mem_numbered c

theorem controls_escaped (s : String) : controls (escaped s) = [] := by
  unfold escaped
  split
  · rfl
  · refine controls_ofList_eq_nil.mpr fun d hd => ?_
    rcases List.mem_append.mp hd with hd | hd
    · exact not_isControl_of_mem_escapeChar _ _ d hd
    · obtain ⟨c, -, hd⟩ := List.mem_flatMap.mp hd
      exact not_isControl_of_mem_escapeChar _ c d hd

theorem controls_quoted (s : String) : controls (quoted s) = [] := by
  have hbody :
      controls (String.ofList (s.toList.flatMap (escapeChar ⟨false, true, true⟩))) = [] := by
    refine controls_ofList_eq_nil.mpr fun d hd => ?_
    obtain ⟨c, -, hd⟩ := List.mem_flatMap.mp hd
    exact not_isControl_of_mem_escapeChar _ c d hd
  have hquote : controls "\"" = [] := by decide
  rw [quoted, controls_append, controls_append, hbody, hquote]
  rfl

end AssetUnpack.Text
