import AssetUnpack.Event
import AssetUnpack.Text.Alphanumeric
import AssetUnpack.Text.Blank
import AssetUnpack.Text.Number
import AssetUnpack.Text.Split

/-!
# The log

Events are written as lines, one for each event that the log filter lets through. A filter is a list
of directives; the one that fits an event most closely decides by the rank of the event's level.

A directive is `target[span{field}]=level`, where each part can be left out, or a level alone. A
target is the start of the name that events are known under. Nothing here happens inside a span, so
a directive on a span decides nothing, and neither does one that asks for the value of a field.
-/

namespace AssetUnpack.Cli

/-! ## Lines -/

/-- The value of a field in a line. -/
def fieldText : FieldValue → String
  | .shown s => s
  | .quoted s => Text.quoted s
  | .number n => String.ofList (Text.decimal n)
  | .flag true => "true"
  | .flag false => "false"

/-- The line of an event. -/
def logLine (e : Event) : String :=
  e.level.name ++ " " ++ Event.target ++ ": " ++ e.message
    ++ String.join (e.fields.map fun field => " " ++ field.1 ++ "=" ++ fieldText field.2)

/-! ## Directives -/

/-- Which events a directive is about, and up to which rank it lets them through. -/
structure Directive where
  target : Option (List Char) := none
  span : Option (List Char) := none
  field : Option String := none
  asksForValue : Bool := false
  threshold : Nat := 5

/-- What can be wrong with a directive. -/
inductive DirectiveFault
  | form
  | level
  deriving DecidableEq

/-- A fault with what caused it, outermost first. A level that is none is both the fault and its
cause. -/
def DirectiveFault.causes : DirectiveFault → List String
  | .form => ["invalid filter directive"]
  | .level =>
    let text := "error parsing level filter: expected one of \"off\", \"error\", \"warn\", "
      ++ "\"info\", \"debug\", \"trace\", or a number 0-5"
    [text, text]

/-- The rank that a number tells. -/
def rankOfDigits? (cs : List Char) : Option Nat :=
  if cs ≠ [] ∧ cs.all Char.isDigit then
    let n := Nat.ofDigitChars 10 cs 0
    if n ≤ 5 then some n else none
  else none

/-- The rank up to which a word lets events through: a name in letters of any case, or a number. -/
def rank? (word : List Char) : Option Nat :=
  match String.ofList (word.map Char.toLower) with
  | "off" => some 0
  | "error" => some 1
  | "warn" => some 2
  | "info" => some 3
  | "debug" => some 4
  | "trace" => some 5
  | _ =>
    match word with
    | '+' :: cs => rankOfDigits? cs
    | cs => rankOfDigits? cs

namespace Directive

/-- A character of a directive as it is read, and the one that is kept for it. -/
abbrev Spot := Char × Char

/-- The characters kept. -/
def kept (spots : List Spot) : List Char := spots.map (·.2)

/-- The part up to the first of some characters, and the rest from there. -/
def cutAt (stops : List Char) (spots : List Spot) : List Char × List Spot :=
  (kept (spots.takeWhile fun s => s.1 ∉ stops), spots.dropWhile fun s => s.1 ∉ stops)

/-- What follows the equals sign; nothing lets everything through. -/
def parseLevel (d : Directive) (word : List Char) : Except DirectiveFault Directive :=
  if word = [] then .ok d
  else
    match rank? word with
    | some rank => .ok { d with threshold := rank }
    | none => .error .level

/-- What follows a span. -/
def parseAfterSpan (d : Directive) (behind : List Char) :
    List Spot → Except DirectiveFault Directive
  | [] => .ok d
  | ('=', _) :: rest => d.parseLevel (kept rest ++ behind)
  | _ => .error .form

/-- What follows an opening bracket: the name of a span, a field in braces, or both. -/
def parseSpan (d : Directive) (behind : List Char) (spots : List Spot) :
    Except DirectiveFault Directive :=
  match cutAt [']', '\x7b'] spots with
  | (name, (']', _) :: rest) => { d with span := some name }.parseAfterSpan behind rest
  | (name, _ :: rest) =>
    match cutAt ['\x7d'] rest with
    | (field, _ :: (']', _) :: rest) =>
      if field = [] then .error .form
      else
        let d := { d with
          span := if name = [] then none else some name
          field := some (String.ofList (field.takeWhile (· ≠ '=')))
          asksForValue := '=' ∈ field }
        d.parseAfterSpan behind rest
    | _ => .error .form
  | (_, []) => .error .form

/-- Whether a target can start with a character: a letter or digit of any script, or a mark that names
are joined with. -/
def startsTarget (c : Char) : Bool := Text.isAlphanumeric c || c ∈ ['-', ':', '_']

/-- Read a directive. Blanks around it do not count when its parts are told apart, but the parts are
cut out of the whole text at the places found so. -/
def parse (text : List Char) : Except DirectiveFault Directive :=
  let read := Text.trim text
  let behind := text.drop read.length
  match read.zip text with
  | [] => .error .form
  | ('[', _) :: rest => ({} : Directive).parseSpan behind rest
  | spots@((c, _) :: _) =>
    if startsTarget c then
      match cutAt ['=', '['] spots with
      | (name, []) =>
        match rank? (name ++ behind) with
        | some rank => .ok { threshold := rank }
        | none => .ok { target := some (name ++ behind) }
      | (name, (stop, _) :: rest) =>
        let d : Directive := { target := some name }
        if stop = '=' then d.parseLevel (kept rest ++ behind) else d.parseSpan behind rest
    else .error .form

/-- Whether a directive is about an event. -/
def fits (d : Directive) (e : Event) : Bool :=
  d.span.isNone && !d.asksForValue
    && (d.target.all fun t => t.isPrefixOf Event.target.toList)
    && (d.field.all fun f => f = "message" || e.fields.any fun field => field.1 = f)

/-- Whether the first of two directives that are about one event fits it more closely: by the longer
target, then by having a field, then by the later field name. -/
def closer (a b : Directive) : Bool :=
  let targetSize (d : Directive) : Nat := (d.target.map fun t => t.length + 1).getD 0
  if targetSize a ≠ targetSize b then decide (targetSize b < targetSize a)
  else
    match a.field, b.field with
    | some x, some y => decide (y < x)
    | some _, none => true
    | none, _ => false

end Directive

/-! ## Filters -/

/-- Which events are written. -/
abbrev LogFilter := List Directive

namespace LogFilter

/-- Read the directives between commas. Without any, only errors are let through. -/
def parse (text : String) : Except DirectiveFault LogFilter := do
  let parts := (Text.splitOn ',' text.toList).filter (· ≠ [])
  match ← parts.mapM Directive.parse with
  | [] => return [{ threshold := 1 }]
  | directives => return directives

/-- The directive that decides about an event. Of two that fit alike the later one does. -/
def deciding? (f : LogFilter) (e : Event) : Option Directive :=
  (f.filter (·.fits e)).foldl (fun best d =>
    match best with
    | none => some d
    | some b => if b.closer d then some b else some d) none

/-- Whether an event is written. -/
def admits (f : LogFilter) (e : Event) : Bool :=
  match f.deciding? e with
  | none => false
  | some d => e.level.rank ≤ d.threshold

/-- The filter of a run that is given none. -/
def standard (verbose quiet : Bool) : LogFilter :=
  [{ threshold := 1 },
   { target := some Event.target.toList
     threshold := if quiet then 1 else if verbose then 4 else 2 }]

/-- The lines of the events that a filter lets through. -/
def lines (f : LogFilter) (es : List Event) : List String :=
  (es.filter f.admits).map logLine

end LogFilter

end AssetUnpack.Cli
