import AssetUnpack.Gzip
import AssetUnpack.Source.Memory
import AssetUnpack.Tar.Member

/-!
# Tar bundles as sources

A bundle is loaded into memory, member by member: files with their content, directories as they
are, everything else passed over. A name may start with `./`; names below the scope are taken
relative to it, names outside are passed over, and a member that cannot be used is noted and leaves
the index as it was. Only a bundle that cannot be read to its end is refused.
-/

namespace AssetUnpack.Tar

/-- The name of a type flag that is neither a file nor a directory. -/
def flagName (flag : UInt8) : String :=
  if flag = 0x31 then "Link"
  else if flag = 0x32 then "Symlink"
  else if flag = 0x33 then "Char"
  else if flag = 0x34 then "Block"
  else if flag = 0x36 then "Fifo"
  else if flag = 0x4C then "GNULongName"
  else if flag = 0x4B then "GNULongLink"
  else if flag = 0x53 then "GNUSparse"
  else if flag = 0x67 then "XGlobalHeader"
  else if flag = 0x78 then "XHeader"
  else "__Nonexhaustive(" ++ toString flag.toNat ++ ")"

/-- What a type flag stands for, if it is a file or a directory. -/
def flagKind? (flag : UInt8) : Option NodeKind :=
  if flag = 0 ∨ flag = 0x30 ∨ flag = 0x37 then some .file
  else if flag = 0x35 then some .directory
  else none

/-- A name without the `./` at its start, however often it is there and with however many
slashes. -/
def stripCurrent : List Char → List Char
  | '.' :: '/' :: rest => stripCurrent (rest.dropWhile (· = '/'))
  | ['.'] => []
  | cs => cs
termination_by cs => cs.length
decreasing_by
  have := (List.dropWhile_sublist (fun c : Char => decide (c = '/')) (l := rest)).length_le
  simp only [List.length_cons]
  omega

/-- How far the loading of a bundle has come. -/
structure Loading where
  tree : MemoryTree
  events : List Event
  loaded : Nat

/-- Note an event. -/
def Loading.note (l : Loading) (e : Event) : Loading := { l with events := l.events ++ [e] }

/-- Take the result of adding a member to the index. -/
def Loading.added (l : Loading) (name : String) : Except InvalidPath MemoryTree → Loading
  | .ok tree => { l with tree, loaded := l.loaded + 1 }
  | .error e => l.note (.conflictingTarEntry name e)

/-- Load one member. -/
def loadMember (scope : AssetPath) (l : Loading) (m : Member) : Except ArchiveFault Loading :=
  match Bytes.text? m.name with
  | none => .ok (l.note (.nameNotText (Bytes.textReplacing m.name)))
  | some name =>
    match flagKind? m.flag with
    | none => .ok (l.note (.unsupportedMember name (flagName m.flag)))
    | some kind =>
      match AssetPath.parse (String.ofList (stripCurrent name.toList)) with
      | .error e => .ok (l.note (.unusableTarEntry name e))
      | .ok full =>
        match full.stripBase? scope with
        | none => .ok l
        | some path =>
          if path.isRoot then .ok l
          else
            match kind, m.failure? with
            | .directory, _ => .ok (l.added name (l.tree.insertDirectory path.text))
            | .file, none => .ok (l.added name (l.tree.insertFile path.text m.content))
            | .file, some e => .error (.tarContent name e.message)

/-- Load members until one breaks; what was noted up to there comes along. -/
def loadItems (scope : AssetPath) (l : Loading) :
    List Item → Except ArchiveFault Loading × List Event
  | [] => (.ok l, l.events)
  | .broken detail :: _ => (.error (.tarHeader detail), l.events)
  | .member m :: rest =>
    match loadMember scope l m with
    | .error e => (.error e, l.events)
    | .ok l => loadItems scope l rest

/-- Load a bundle; the index holds what lies below the scope. -/
def load (input : Reader) (scope : AssetPath) : Except ExtractError MemoryTree × List Event :=
  match loadItems scope ⟨.empty, [], 0⟩ (members {} (.start input)) with
  | (.error e, events) => (.error (.invalidArchive e), events)
  | (.ok l, events) => (.ok l.tree, events ++ [.loadedTar l.loaded scope])

/-- What is read of a bundle as a byte string, gzipped or not. -/
def inputOf (bytes : Bytes) (gzipped : Bool) : Reader :=
  if gzipped then Gzip.reader bytes else .ofBytes bytes

end AssetUnpack.Tar

namespace AssetUnpack.Source

/-- Open the bundle that a byte string holds; `scope` is the text of the path that becomes the
root. -/
def openTar (bytes : Bytes) (gzipped : Bool) (scope : String) :
    Except ExtractError Source × List Event :=
  match AssetPath.parse scope with
  | .error e => (.error (.invalidPath e), [])
  | .ok scope =>
    match Tar.load (Tar.inputOf bytes gzipped) scope with
    | (.error e, events) => (.error e, events)
    | (.ok tree, events) => (.ok (.ofMemory tree true), events)

end AssetUnpack.Source
