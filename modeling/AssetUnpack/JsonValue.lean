import AssetUnpack.Text.Number

/-!
# JSON documents

The documents that the command line prints: numbers are whole, objects keep the order of their
members. `render` lays a document out with one element or member on a line, indented by two spaces
for every level; a container without content is written on one line.
-/

namespace AssetUnpack

/-- A JSON document. -/
inductive JsonValue
  | null
  | text (s : String)
  | number (n : Nat)
  | array (items : List JsonValue)
  | object (members : List (String × JsonValue))

namespace JsonValue

/-- A hexadecimal digit. -/
def hexDigit (n : Nat) : Char := Nat.digitChar n

/-- A character inside a JSON string. -/
def escapeChar (c : Char) : List Char :=
  if c = '\x22' then ['\\', '\x22']
  else if c = '\\' then ['\\', '\\']
  else if c = '\x08' then ['\\', 'b']
  else if c = '\x0c' then ['\\', 'f']
  else if c = '\n' then ['\\', 'n']
  else if c = '\r' then ['\\', 'r']
  else if c = '\t' then ['\\', 't']
  else if c.toNat < 0x20 then
    ['\\', 'u', '0', '0', hexDigit (c.toNat / 16), hexDigit (c.toNat % 16)]
  else [c]

/-- A JSON string. -/
def renderText (s : String) : List Char :=
  '\x22' :: s.toList.flatMap escapeChar ++ ['\x22']

/-- The start of a line at a level. -/
def newline (level : Nat) : List Char := '\n' :: List.replicate (2 * level) ' '

mutual

/-- A document as text, inside containers of this many levels. -/
def render (level : Nat) : JsonValue → List Char
  | .null => ['n', 'u', 'l', 'l']
  | .text s => renderText s
  | .number n => Text.decimal n
  | .array [] => ['[', ']']
  | .array (item :: items) =>
    '[' :: newline (level + 1) ++ render (level + 1) item ++ renderItems (level + 1) items
      ++ newline level ++ [']']
  | .object [] => ['\x7b', '\x7d']
  | .object ((name, value) :: members) =>
    '\x7b' :: newline (level + 1) ++ renderText name ++ [':', ' '] ++ render (level + 1) value
      ++ renderMembers (level + 1) members ++ newline level ++ ['\x7d']

/-- The elements after the first one. -/
def renderItems (level : Nat) : List JsonValue → List Char
  | [] => []
  | item :: items => ',' :: newline level ++ render level item ++ renderItems level items

/-- The members after the first one. -/
def renderMembers (level : Nat) : List (String × JsonValue) → List Char
  | [] => []
  | (name, value) :: members =>
    ',' :: newline level ++ renderText name ++ [':', ' '] ++ render level value
      ++ renderMembers level members

end

/-- A document as it is printed. -/
def pretty (v : JsonValue) : String := String.ofList (render 0 v)

end JsonValue

end AssetUnpack
