import AssetUnpack.SystemError

/-!
# Errors of the operating system and of streams

An `IoError` is either a numbered error of the operating system or a failure with a kind and a text
of its own. `message` gives the text that reports show, `kind` the class that callers branch on.
-/

namespace AssetUnpack

/-- An I/O error. -/
inductive IoError
  /-- The operating system's error with this number. -/
  | os (code : Nat)
  /-- An error of this kind that says what happened in its own words. -/
  | said (kind : IoKind) (text : String)
  deriving DecidableEq

namespace IoError

/-- Nothing stands where a path leads. -/
def noEntry : IoError := .os 2

/-- Something stands where a new entry was to go. -/
def entryExists : IoError := .os 17

/-- A path goes on below something that is no directory. -/
def notDirectory : IoError := .os 20

/-- A directory stands where a file was wanted. -/
def isDirectory : IoError := .os 21

/-- A device has no room left. -/
def noSpace : IoError := .os 28

/-- A path, or a name in it, is longer than the disk allows. -/
def nameTooLong : IoError := .os 36

/-- A lookup followed more links than it may. -/
def tooManyLinks : IoError := .os 40

/-- A path with a NUL character never reaches the operating system. -/
def nulInPath : IoError := .said .invalidInput "file name contained an unexpected NUL byte"

/-- A writer took nothing of what it was offered. -/
def nothingWritten : IoError := .said .writeZero "failed to write whole buffer"

/-- The class of an error. -/
def kind : IoError → IoKind
  | .os code => SystemError.kind code
  | .said k _ => k

/-- The text of an error. -/
def message : IoError → String
  | .os code => SystemError.text code ++ s!" (os error {code})"
  | .said _ text => text

/-- An error that a reader or writer is asked again after. -/
def isInterrupted (e : IoError) : Bool := e.kind == .interrupted

end IoError

end AssetUnpack
