/-!
# Numbers in reports

Counts are written in decimal with a comma before every third digit from the right, sizes with one
decimal place in the largest binary unit that they reach, and durations in the largest unit that
they reach with as many decimal places as they need.
-/

namespace AssetUnpack.Text

/-- The decimal digits of a number. -/
def decimal (n : Nat) : List Char := Nat.toDigits 10 n

theorem isDigit_decimal {n : Nat} : ∀ c ∈ decimal n, c.isDigit = true :=
  fun _ hc => Nat.isDigit_of_mem_toDigits (by omega) (by omega) hc

/-- Put a comma after every third element of a list that goes on; `free` elements come before the
next comma. -/
def groupFrom : Nat → List Char → List Char
  | _, [] => []
  | 0, c :: cs => ',' :: c :: groupFrom 2 cs
  | free + 1, c :: cs => c :: groupFrom free cs

/-- A count with its digits in groups of three. -/
def grouped (n : Nat) : String := String.ofList (groupFrom 3 (decimal n).reverse).reverse

/-! ## Rounding -/

/-- The quotient `num / den` rounded to the nearest whole number; a tie goes to the even one. -/
def roundHalfEven (num den : Nat) : Nat :=
  let q := num / den
  let twice := 2 * (num % den)
  if twice < den then q
  else if den < twice then q + 1
  else if q % 2 = 0 then q else q + 1

/-- A number rounded to 53 significant binary digits, a tie to the even one: the nearest number
that a double has. -/
def nearestDouble (n : Nat) : Nat :=
  if n < 1 <<< 53 then n
  else
    let unit := 1 <<< (Nat.log2 n - 52)
    roundHalfEven n unit * unit

/-- The quotient `n / unit` with one decimal place. -/
def oneDecimal (n unit : Nat) : List Char :=
  let tenths := roundHalfEven (10 * nearestDouble n) unit
  decimal (tenths / 10) ++ '.' :: decimal (tenths % 10)

/-- The bytes of a kilobyte. -/
def kilobyte : Nat := 1024

/-- The bytes of a megabyte. -/
def megabyte : Nat := 1024 * kilobyte

/-- The bytes of a gigabyte. -/
def gigabyte : Nat := 1024 * megabyte

/-- A size in bytes, in the largest unit that it reaches. -/
def size (bytes : Nat) : String :=
  if gigabyte ≤ bytes then String.ofList (oneDecimal bytes gigabyte) ++ " GB"
  else if megabyte ≤ bytes then String.ofList (oneDecimal bytes megabyte) ++ " MB"
  else if kilobyte ≤ bytes then String.ofList (oneDecimal bytes kilobyte) ++ " KB"
  else String.ofList (decimal bytes) ++ " B"

/-! ## Durations -/

/-- A whole number written with `width` digits, zeros in front. -/
def padded (width n : Nat) : List Char :=
  let digits := decimal n
  List.replicate (width - digits.length) '0' ++ digits

/-- A list without the zeros at its end. -/
def dropTrailingZeros (cs : List Char) : List Char :=
  (cs.reverse.dropWhile (· = '0')).reverse

/-- A whole part and a fraction of so many places, no more of them than needed. -/
def withFraction (whole fraction places : Nat) : String :=
  let shown := dropTrailingZeros (padded places fraction)
  String.ofList (decimal whole ++ if shown = [] then [] else '.' :: shown)

/-- The nanoseconds of a microsecond. -/
def microsecond : Nat := 1000

/-- The nanoseconds of a millisecond. -/
def millisecond : Nat := 1000 * microsecond

/-- The nanoseconds of a second. -/
def second : Nat := 1000 * millisecond

/-- A duration given in nanoseconds. -/
def duration (nanos : Nat) : String :=
  if second ≤ nanos then withFraction (nanos / second) (nanos % second) 9 ++ "s"
  else if millisecond ≤ nanos then
    withFraction (nanos / millisecond) (nanos % millisecond) 6 ++ "ms"
  else if microsecond ≤ nanos then
    withFraction (nanos / microsecond) (nanos % microsecond) 3 ++ "µs"
  else withFraction nanos 0 0 ++ "ns"

end AssetUnpack.Text
