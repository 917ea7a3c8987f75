import AssetUnpack.JsonValue

/-!
# Reading JSON

A reader of JSON texts as the standard has them, for whatever text it is given and not
only for the documents of this library: blanks are free between the parts, numbers may
have a sign, a fraction and an exponent, and strings may use any of the escapes. It
knows nothing of how a document was laid out.

The mutual recursion counts steps. Between two steps that take no character there is
always one that does, so twice the length of a text is enough.
-/

namespace AssetUnpack

/-- A number as JSON writes it: `mantissa` times ten to the `exponent`. -/
structure Decimal where
  mantissa : Int
  exponent : Int
  deriving DecidableEq

inductive Json
  | null
  | truth (b : Bool)
  | number (d : Decimal)
  | text (s : String)
  | array (items : List Json)
  | object (members : List (String × Json))

namespace Json

def isBlank (c : Char) : Bool := c = ' ' || c = '\t' || c = '\n' || c = '\r'

/-- What is behind the blanks. -/
def skip (cs : List Char) : List Char := cs.dropWhile isBlank

/-! ## Strings -/

def hexValue? (c : Char) : Option Nat :=
  if '0' ≤ c ∧ c ≤ '9' then some (c.toNat - 48)
  else if 'a' ≤ c ∧ c ≤ 'f' then some (c.toNat - 87)
  else if 'A' ≤ c ∧ c ≤ 'F' then some (c.toNat - 55)
  else none

/-- The number that four hexadecimal digits are. -/
def readUnit : List Char → Option (Nat × List Char)
  | a :: b :: c :: d :: cs => do
    let n := 16 * (16 * (16 * (← hexValue? a) + (← hexValue? b)) + (← hexValue? c))
    some (n + (← hexValue? d), cs)
  | _ => none

/-- The character behind `\u`. One beyond the first plane is written as two surrogates;
a surrogate alone is no character. -/
def readCodePoint (cs : List Char) : Option (Char × List Char) := do
  let (high, cs) ← readUnit cs
  if high < 0xD800 ∨ 0xDFFF < high then some (Char.ofNat high, cs)
  else if 0xDC00 ≤ high then none
  else
    match cs with
    | '\\' :: 'u' :: cs => do
      let (low, cs) ← readUnit cs
      if low < 0xDC00 ∨ 0xDFFF < low then none
      else some (Char.ofNat (0x10000 + 0x400 * (high - 0xD800) + (low - 0xDC00)), cs)
    | _ => none

/-- The escapes of one letter, and what they stand for. -/
def letters : List (Char × Char) :=
  [('\x22', '\x22'), ('\\', '\\'), ('/', '/'), ('b', '\x08'), ('f', '\x0c'), ('n', '\n'),
    ('r', '\r'), ('t', '\t')]

/-- The character that is escaped behind a backslash. -/
def readEscape : List Char → Option (Char × List Char)
  | [] => none
  | c :: cs => if c = 'u' then readCodePoint cs else (letters.lookup c).map (·, cs)

/-- The characters up to the closing quote. -/
def readChars : Nat → List Char → Option (List Char × List Char)
  | 0, _ | _, [] => none
  | steps + 1, c :: cs =>
    if c = '\x22' then some ([], cs)
    else if c = '\\' then do
      let (d, cs) ← readEscape cs
      let (ds, cs) ← readChars steps cs
      some (d :: ds, cs)
    else if c.toNat < 0x20 then none
    else do
      let (ds, cs) ← readChars steps cs
      some (c :: ds, cs)

/-- A string behind its opening quote. -/
def readText (cs : List Char) : Option (String × List Char) := do
  let (ds, cs) ← readChars cs.length cs
  some (String.ofList ds, cs)

/-! ## Numbers -/

def readDigits (cs : List Char) : Option (List Char × List Char) :=
  if cs.takeWhile Char.isDigit = [] then none
  else some (cs.takeWhile Char.isDigit, cs.dropWhile Char.isDigit)

/-- The digits of a whole part: nothing follows a zero in front. -/
def readWhole : List Char → Option (List Char × List Char)
  | '0' :: cs => some (['0'], cs)
  | cs => readDigits cs

def readFraction : List Char → Option (List Char × List Char)
  | '.' :: cs => readDigits cs
  | cs => some ([], cs)

/-- A whole number behind its sign, if it has one. -/
def readSigned : List Char → Option (Int × List Char)
  | '-' :: cs => do
    let (ds, cs) ← readDigits cs
    some (-(Nat.ofDigitChars 10 ds 0 : Int), cs)
  | '+' :: cs | cs => do
    let (ds, cs) ← readDigits cs
    some ((Nat.ofDigitChars 10 ds 0 : Int), cs)

def readExponent : List Char → Option (Int × List Char)
  | [] => some (0, [])
  | c :: cs => if c = 'e' ∨ c = 'E' then readSigned cs else some (0, c :: cs)

def readUnsigned (cs : List Char) : Option (Decimal × List Char) := do
  let (whole, cs) ← readWhole cs
  let (fraction, cs) ← readFraction cs
  let (exponent, cs) ← readExponent cs
  some (⟨Nat.ofDigitChars 10 (whole ++ fraction) 0, exponent - fraction.length⟩, cs)

def readNumber : List Char → Option (Decimal × List Char)
  | '-' :: cs => do
    let (d, cs) ← readUnsigned cs
    some (⟨-d.mantissa, d.exponent⟩, cs)
  | cs => readUnsigned cs

/-! ## Values -/

/-- What is behind a word. -/
def expect : List Char → List Char → Option (List Char)
  | [], cs => some cs
  | w :: word, c :: cs => if c = w then expect word cs else none
  | _ :: _, [] => none

mutual

/-- A value, in so many steps. -/
def readValue : Nat → List Char → Option (Json × List Char)
  | 0, _ => none
  | steps + 1, cs =>
    match skip cs with
    | [] => none
    | c :: cs =>
      if c = '\x22' then (readText cs).map fun (s, cs) => (.text s, cs)
      else if c = '[' then
        match skip cs with
        | ']' :: cs => some (.array [], cs)
        | cs => (readItems steps cs).map fun (items, cs) => (.array items, cs)
      else if c = '\x7b' then
        match skip cs with
        | '\x7d' :: cs => some (.object [], cs)
        | cs => (readMembers steps cs).map fun (members, cs) => (.object members, cs)
      else if c = 'n' then (expect ['u', 'l', 'l'] cs).map (.null, ·)
      else if c = 't' then (expect ['r', 'u', 'e'] cs).map (.truth true, ·)
      else if c = 'f' then (expect ['a', 'l', 's', 'e'] cs).map (.truth false, ·)
      else (readNumber (c :: cs)).map fun (d, cs) => (.number d, cs)

/-- One element or more, and the bracket that closes them. -/
def readItems : Nat → List Char → Option (List Json × List Char)
  | 0, _ => none
  | steps + 1, cs => do
    let (item, cs) ← readValue steps cs
    match skip cs with
    | ']' :: cs => some ([item], cs)
    | ',' :: cs => do
      let (items, cs) ← readItems steps cs
      some (item :: items, cs)
    | _ => none

/-- One member or more, and the brace that closes them. -/
def readMembers : Nat → List Char → Option (List (String × Json) × List Char)
  | 0, _ => none
  | steps + 1, cs =>
    match skip cs with
    | '\x22' :: cs => do
      let (name, cs) ← readText cs
      let cs ← expect [':'] (skip cs)
      let (value, cs) ← readValue steps cs
      match skip cs with
      | '\x7d' :: cs => some ([(name, value)], cs)
      | ',' :: cs => do
        let (members, cs) ← readMembers steps cs
        some ((name, value) :: members, cs)
      | _ => none
    | _ => none

end

/-- What a whole text says, if it is one value with nothing behind it but blanks. -/
def read (s : String) : Option Json :=
  match readValue (2 * s.toList.length) s.toList with
  | some (v, cs) => if skip cs = [] then some v else none
  | none => none

example : read " [ -1.50e+1 , \"\\ud83d\\ude00\\/\" ] " =
    some (.array [.number ⟨-150, -1⟩, .text "😀/"]) := by cbv

example : read "[1,]" = none := by cbv

end Json

end AssetUnpack
