import AssetUnpack.AssetPath

/-!
# Paths of the host

A host path is a text, and it is shown as it was given. `push` appends one name as text; `steps`
says what the disk does with it: which names it walks through, from where.
-/

namespace AssetUnpack

/-- A path as given to the operating system. -/
structure HostPath where
  text : String
  deriving DecidableEq

namespace HostPath

/-- Whether the walk starts at the root of the disk. -/
def isAbsolute (p : HostPath) : Bool := p.text.toList.head? == some '/'

/-- The path with one more name: a slash is put in front unless the text is empty or already ends
in one. -/
def push (p : HostPath) (name : Name) : HostPath :=
  let cs := p.text.toList
  if cs = [] ∨ cs.getLast? = some '/' then ⟨p.text ++ name.text⟩
  else ⟨p.text ++ "/" ++ name.text⟩

/-- The place of an asset below a base: its names pushed in order. -/
def under (base : HostPath) (p : AssetPath) : HostPath := p.names.foldl push base

/-- The names that the disk walks through. Empty names stand for no step, except that a slash at
the end asks for a directory and is an empty step. -/
def steps (p : HostPath) : List String :=
  let parts := Text.splitOn '/' p.text.toList
  let walked := parts.filter (· ≠ [])
  let asked := if parts.getLast? = some [] ∧ walked ≠ [] then walked ++ [[]] else walked
  asked.map String.ofList

/-! ## The last name and its extension

These look at the text alone. A `.` is passed over unless it starts a relative path, and a path
that ends in `..` has no last name. -/

/-- The text of the last name, unless there is none or it is `..`. -/
def lastName? (p : HostPath) : Option (List Char) :=
  let parts := (Text.splitOn '/' p.text.toList).filter (fun part => part ≠ [] ∧ part ≠ ['.'])
  match parts.getLast? with
  | none => none
  | some last => if last = ['.', '.'] then none else some last

/-- Cut a name at its last dot, unless that dot is its first character. -/
def cutExtension (name : List Char) : List Char × Option (List Char) :=
  let back := name.reverse
  match back.dropWhile (· ≠ '.') with
  | [] => (name, none)
  | _ :: stem =>
    if stem = [] then (name, none)
    else (stem.reverse, some (back.takeWhile (· ≠ '.')).reverse)

/-- The part of the last name after its last dot. -/
def extension? (p : HostPath) : Option (List Char) :=
  p.lastName?.bind fun name => (cutExtension name).2

/-- The last name without its extension. -/
def stem? (p : HostPath) : Option (List Char) :=
  p.lastName?.map fun name => (cutExtension name).1

end HostPath

end AssetUnpack
