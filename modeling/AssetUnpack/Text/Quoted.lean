import AssetUnpack.Text.Extending
import AssetUnpack.Text.Visible

/-!
# Quoted and escaped text

Names that a source reports may hold anything. In messages they appear escaped: the common controls
and the backslash by a letter, quotes by a backslash, and what has no visible form by its number.
The two forms differ in which quotes they escape and in where a character that attaches to its
neighbour is shown by number.
-/

namespace AssetUnpack.Text

/-- A character by its number, as in `\u{1b}`. -/
def numbered (c : Char) : List Char :=
  '\\' :: 'u' :: '\x7b' :: Nat.toDigits 16 c.toNat ++ ['\x7d']

/-- Which characters an escaped form gives a backslash or a number beyond those that every form
does. -/
structure EscapeRule where
  singleQuote : Bool
  doubleQuote : Bool
  extending : Bool

/-- One character in an escaped form. -/
def escapeChar (rule : EscapeRule) (c : Char) : List Char :=
  if c = '\x00' then ['\\', '0']
  else if c = '\t' then ['\\', 't']
  else if c = '\r' then ['\\', 'r']
  else if c = '\n' then ['\\', 'n']
  else if c = '\\' then ['\\', '\\']
  else if c = '\x22' ∧ rule.doubleQuote then ['\\', '\x22']
  else if c = '\x27' ∧ rule.singleQuote then ['\\', '\x27']
  else if rule.extending ∧ isExtending c then numbered c
  else if isVisible c then [c]
  else numbered c

/-- A text between double quotes. Single quotes stand for themselves, and a character that attaches
to its neighbour is shown by number wherever it stands. -/
def quoted (s : String) : String :=
  "\"" ++ String.ofList (s.toList.flatMap (escapeChar ⟨false, true, true⟩)) ++ "\""

/-- A text without quotes around it. Both quotes are escaped, and a character that attaches to its
neighbour is shown by number only where it has none, at the start. -/
def escaped (s : String) : String :=
  match s.toList with
  | [] => ""
  | c :: cs =>
    String.ofList
      (escapeChar ⟨true, true, true⟩ c ++ cs.flatMap (escapeChar ⟨true, true, false⟩))

end AssetUnpack.Text
