import AssetUnpack.Text.Split

/-!
# Paths of assets

An asset path is a list of names. A name is a non-empty text that stands for itself: it is neither
`.` nor `..` and holds no slash, no backslash and no NUL. Since a path is made of names and nothing
else, joining it under any base can only descend, one level per name.

The text of a path is its names with single slashes between them, and `parse` reads exactly the
texts whose non-empty segments are names.
-/

namespace AssetUnpack

/-- Why an asset path, or a name in it, cannot be used. -/
inductive PathFault
  | emptyName
  | currentDirectory
  | parentDirectory
  | separator
  | nulByte
  /-- A file stands where a directory is needed. -/
  | fileAsDirectory
  /-- A directory stands where a file is needed. -/
  | directoryAsFile
  | rootAsFile
  /-- A file entry carries the very name of the namespace's root. -/
  | shadowsRoot
  /-- A fault stated by a caller. -/
  | stated (reason : String)
  deriving DecidableEq

/-- The text of a fault. -/
def PathFault.message : PathFault → String
  | .emptyName => "empty name"
  | .currentDirectory => "current directory reference"
  | .parentDirectory => "parent directory reference"
  | .separator => "name contains a path separator"
  | .nulByte => "contains NUL byte"
  | .fileAsDirectory => "file used as a directory"
  | .directoryAsFile => "directory used as a file"
  | .rootAsFile => "root cannot be a file"
  | .shadowsRoot => "file shadows the namespace root"
  | .stated reason => reason

/-- A path or name that was refused, and why. -/
structure InvalidPath where
  path : String
  fault : PathFault
  deriving DecidableEq

/-- The first fault that keeps a text from being a name. -/
def nameFault? (s : String) : Option PathFault :=
  if s = "" then some .emptyName
  else if s = "." then some .currentDirectory
  else if s = ".." then some .parentDirectory
  else if '/' ∈ s.toList ∨ '\\' ∈ s.toList then some .separator
  else if '\x00' ∈ s.toList then some .nulByte
  else none

/-- One name of an asset path. -/
structure Name where
  text : String
  valid : nameFault? text = none
  deriving DecidableEq

namespace Name

/-- The name that a text is, or why it is none. -/
def ofString (s : String) : Except InvalidPath Name :=
  match h : nameFault? s with
  | none => .ok ⟨s, h⟩
  | some fault => .error ⟨s, fault⟩

/-- The text of a name is read back as that name. -/
theorem ofString_text (n : Name) : ofString n.text = .ok n := by
  unfold ofString
  split
  · rfl
  · next fault h => rw [n.valid] at h; cases h

end Name

/-- A path inside an asset namespace: names from the root down. -/
structure AssetPath where
  names : List Name
  deriving DecidableEq

namespace AssetPath

/-- The path without names. -/
def root : AssetPath := ⟨[]⟩

/-- Whether the path is the root. -/
def isRoot (p : AssetPath) : Bool := p.names.isEmpty

/-- The text of a path: its names with single slashes between them. -/
def text (p : AssetPath) : String :=
  String.ofList (Text.joinWith '/' (p.names.map (·.text.toList)))

instance : ToString AssetPath := ⟨text⟩

/-- The non-empty segments between the slashes of a text. -/
def segments (s : String) : List String :=
  ((Text.splitOn '/' s.toList).filter (· ≠ [])).map String.ofList

/-- Read a path; empty segments are passed over, every other one must be a name. The first that is
none is the error. -/
def parse (s : String) : Except InvalidPath AssetPath := do
  return ⟨← (segments s).mapM Name.ofString⟩

/-- Number of names. -/
def depth (p : AssetPath) : Nat := p.names.length

/-- The path one level below `p`, if `name` is a name. -/
def join (p : AssetPath) (name : String) : Except InvalidPath AssetPath := do
  return ⟨p.names ++ [← Name.ofString name]⟩

/-- The path one level above; the root has none. -/
def parent? (p : AssetPath) : Option AssetPath :=
  if p.names.isEmpty then none else some ⟨p.names.dropLast⟩

/-- The last name; the root has none. -/
def fileName? (p : AssetPath) : Option Name := p.names.getLast?

/-- Whether `p` is `base` or lies below it. -/
def startsWith (p base : AssetPath) : Bool := base.names.isPrefixOf p.names

/-- The rest of `p` below `base`. -/
def stripBase? (p base : AssetPath) : Option AssetPath :=
  if p.startsWith base then some ⟨p.names.drop base.depth⟩ else none

/-- Paths in the order of their bytes, which is the order of their characters. -/
def compareText (p q : AssetPath) : Ordering := compare p.text q.text

/-- One level more than the deepest of some paths. -/
def depthBound (paths : List AssetPath) : Nat := (paths.map fun p => p.depth + 1).foldr max 0

/-- Each of the paths lies above their bound. -/
theorem depth_lt_depthBound {paths : List AssetPath} {p : AssetPath} (h : p ∈ paths) :
    p.depth < depthBound paths := by
  induction paths with
  | nil => cases h
  | cons q paths ih =>
    simp only [depthBound, List.map_cons, List.foldr_cons]
    rcases List.mem_cons.1 h with rfl | h
    · exact Nat.le_max_left _ _
    · exact Nat.lt_of_lt_of_le (ih h) (Nat.le_max_right _ _)

theorem depth_join {p q : AssetPath} {name : String} (h : p.join name = .ok q) :
    q.depth = p.depth + 1 := by
  unfold join at h
  cases hn : Name.ofString name with
  | error e => rw [hn] at h; cases h
  | ok n =>
    rw [hn] at h
    cases h
    simp [depth]

end AssetPath

end AssetUnpack
