import AssetUnpack.Table
import AssetUnpack.Source

/-!
# Sources that follow a script

A script gives the answers of a source path by path and is free to contradict itself: names that
are no names, children without a node, files with children. Such sources stand for hostile or
broken packages. `withFaults` breaks a source that works: it makes chosen paths fail to list, to
open or to be read to their end, and can withhold every kind.
-/

namespace AssetUnpack

/-- The answers of a source at one path. -/
structure ScriptedNode where
  children : List String
  listError : Option IoError
  openError : Option IoError
  content : Option Bytes
  kind : Option NodeKind

/-- What breaks at which path. -/
structure Faults where
  list : Table AssetPath IoError
  openAsset : Table AssetPath IoError
  /-- Reading fails after this many bytes. -/
  read : Table AssetPath (Nat × IoError)
  withholdKinds : Bool

/-- The values whose keys are texts of paths, by path. Of two values with one key the last wins. -/
def Table.byPath {α : Type} (l : List (String × α)) : Table AssetPath α :=
  l.foldl (fun t e =>
    match AssetPath.parse e.1 with
    | .ok p => if p.text = e.1 then t.put p e.2 else t
    | .error _ => t) .empty

namespace Source

/-- The source that answers by a script. Where the script has no node nothing can be opened. -/
def scripted (script : Table AssetPath ScriptedNode) : Source where
  list _ p :=
    match script.get? p with
    | none => (.ok [], [])
    | some n =>
      match n.listError with
      | some e => (.error e, [])
      | none => (.ok n.children, [])
  kind _ p := (script.get? p).bind (·.kind)
  openAsset _ _ p :=
    match script.get? p with
    | none => .error (.said .notFound "no such node")
    | some n =>
      match n.openError, n.content with
      | some e, _ => .error e
      | none, some bytes => .ok fun _ => .ofBytes bytes
      | none, none => .error (.said .notFound "no such node")
  depthLimit := AssetPath.depthBound script.keys
  list_deep _ p h names hn := by
    cases hg : script.get? p with
    | none =>
      simp only [hg] at hn
      exact (Except.ok.inj hn).symm
    | some n =>
      have := AssetPath.depth_lt_depthBound (Table.mem_keys.2 (by simp [hg] : script.get? p ≠ none))
      omega

/-- A source with faults put into it. -/
def withFaults (s : Source) (f : Faults) : Source where
  list d p :=
    match f.list.get? p with
    | some e => (.error e, [])
    | none => s.list d p
  kind d p := if f.withholdKinds then none else s.kind d p
  openAsset d busy p :=
    match f.openAsset.get? p with
    | some e => .error e
    | none =>
      match s.openAsset d busy p, f.read.get? p with
      | .ok content, some (n, e) => .ok fun d => Reader.failAfter e n (content d)
      | result, _ => result
  depthLimit := s.depthLimit
  list_deep d p h names hn := by
    split at hn
    · cases hn
    · exact s.list_deep d p h names hn

end Source

end AssetUnpack
