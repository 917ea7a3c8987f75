import AssetUnpack.Report

/-!
# How the text of a warning begins

Whoever reads a report tells warnings apart by their first words. Each kind of
warning has words of its own to begin with (`Warning.lead`), and no two of them
agree to the end of the shorter one, so for a warning that comes from a run it
is enough to look at those.
-/

namespace AssetUnpack.Warning

/-- Whether the text of a warning begins so. -/
def Begins (w : Warning) (text : String) : Prop := text.toList <+: w.message.toList

instance (w : Warning) (text : String) : Decidable (w.Begins text) :=
  inferInstanceAs (Decidable (_ <+: _))

/-- The words that the text of a warning begins with, whatever it is about. -/
def lead : Warning → String
  | invalidName _ _ => "invalid asset name "
  | failedToList _ _ => "failed to list '"
  | failedToOpen _ _ => "failed to open '"
  | failedToWrite _ _ => "failed to write '"
  | failedToCreate _ _ => "failed to create '"
  | stated text => text

theorem lead_prefix (w : Warning) : w.lead.toList <+: w.message.toList := by
  have hfour (a b c d : String) : a.toList <+: (a ++ b ++ c ++ d).toList := by
    rw [String.append_assoc, String.append_assoc, String.toList_append]
    exact List.prefix_append _ _
  cases w with
  | invalidName parent name =>
      have h := hfour "invalid asset name " (Text.quoted name) " under '" (parent.text ++ "'")
      rwa [← String.append_assoc] at h
  | failedToList | failedToOpen | failedToWrite | failedToCreate => exact hfour _ _ _ _
  | stated text => exact List.prefix_refl _

theorem begins_of_lead {w : Warning} {text : String} (h : text.toList <+: w.lead.toList) :
    w.Begins text := h.trans w.lead_prefix

/-- A warning whose words are `lead` does not begin with words that part from them. -/
theorem not_begins_of_lead {w : Warning} {lead text : String} (hlead : w.lead = lead)
    (h : ¬ text.toList <+: lead.toList ∧ ¬ lead.toList <+: text.toList) : ¬ w.Begins text := by
  intro hbegins
  subst hlead
  rcases List.prefix_or_prefix_of_prefix hbegins w.lead_prefix with hp | hp
  · exact h.1 hp
  · exact h.2 hp

end AssetUnpack.Warning
