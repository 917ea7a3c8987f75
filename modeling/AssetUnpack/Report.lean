import AssetUnpack.Text.Quoted
import AssetUnpack.ExtractError

/-!
# Reports and progress

A report counts what an extraction did and keeps a warning for every node that failed. Progress is
the same run seen leaf by leaf while it goes on.
-/

namespace AssetUnpack

/-- Why a node failed. -/
inductive Warning
  | invalidName (parent : AssetPath) (name : String)
  | failedToList (path : AssetPath) (e : IoError)
  | failedToOpen (path : AssetPath) (e : IoError)
  | failedToWrite (dest : String) (e : IoError)
  | failedToCreate (dest : String) (e : IoError)
  /-- A warning stated by a caller. -/
  | stated (text : String)
  deriving DecidableEq

/-- The text of a warning. -/
def Warning.message : Warning → String
  | .invalidName parent name =>
    "invalid asset name " ++ Text.quoted name ++ " under '" ++ parent.text ++ "'"
  | .failedToList path e => "failed to list '" ++ path.text ++ "': " ++ e.message
  | .failedToOpen path e => "failed to open '" ++ path.text ++ "': " ++ e.message
  | .failedToWrite dest e =>
    "failed to write '" ++ dest ++ "': " ++ (ExtractError.inputOutput e).message
  | .failedToCreate dest e => "failed to create '" ++ dest ++ "': " ++ e.message
  | .stated text => text

/-- What an extraction did. -/
structure Report where
  filesCopied : Nat := 0
  filesSkipped : Nat := 0
  directoriesCreated : Nat := 0
  leavesUnreadable : Nat := 0
  nodesFailed : Nat := 0
  bytesWritten : Nat := 0
  /-- Run time in nanoseconds. -/
  duration : Nat := 0
  warnings : List Warning := []
  deriving DecidableEq

namespace Report

/-- Number of entries made or written. -/
def totalWritten (r : Report) : Nat := r.filesCopied + r.directoriesCreated

/-- Whether there is anything to warn about. -/
def hasWarnings (r : Report) : Bool := !r.warnings.isEmpty

/-- Whether every node went well. -/
def isClean (r : Report) : Bool := r.nodesFailed == 0

/-- One more node failed. -/
def fail (r : Report) (w : Warning) : Report :=
  { r with nodesFailed := r.nodesFailed + 1, warnings := r.warnings ++ [w] }

end Report

/-- What a watcher of an extraction is told. -/
inductive Progress
  /-- The leaf with this number is next; numbers start at one. -/
  | start (path : AssetPath) (number : Nat)
  | bytes (count : Nat)
  | complete (path : AssetPath)
  /-- The extraction is over. -/
  | done
  deriving DecidableEq

end AssetUnpack
