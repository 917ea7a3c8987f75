/-!
# Blanks

The characters that show nothing but room, and texts without them at their ends.
-/

namespace AssetUnpack.Text

/-- Whether a character is a blank: a space of any width, a tab, or a break between lines. -/
def isBlank (c : Char) : Bool :=
  c = ' ' ∨ ('\t' ≤ c ∧ c ≤ '\r') ∨ c = '\u0085' ∨ c = '\u00A0' ∨ c = '\u1680'
    ∨ ('\u2000' ≤ c ∧ c ≤ '\u200A') ∨ c = '\u2028' ∨ c = '\u2029' ∨ c = '\u202F'
    ∨ c = '\u205F' ∨ c = '\u3000'

/-- A text without the blanks at its ends. -/
def trim (cs : List Char) : List Char :=
  ((cs.dropWhile isBlank).reverse.dropWhile isBlank).reverse

end AssetUnpack.Text
