import AssetUnpack.AssetPath
import AssetUnpack.IoError

/-!
# Errors that reach a caller

Most failures of an extraction stay at the node where they happen and are only reported. The errors
here keep an extraction from starting, or a package from being opened.
-/

namespace AssetUnpack

/-- What is wrong with a package, with a detail in the words of whoever noticed. -/
inductive ArchiveFault
  | zipDirectory (detail : String)
  | zipEntry (index : Nat) (detail : String)
  | tarHeader (detail : String)
  | tarContent (name : String) (detail : String)
  /-- A fault stated by a caller. -/
  | stated (reason : String)
  deriving DecidableEq

/-- The text of an archive fault. -/
def ArchiveFault.message : ArchiveFault → String
  | .zipDirectory detail => s!"failed to open ZIP archive: {detail}"
  | .zipEntry index detail => s!"failed to read ZIP entry {index}: {detail}"
  | .tarHeader detail => s!"failed to read TAR entry: {detail}"
  | .tarContent name detail => "failed to read TAR entry '" ++ name ++ "': " ++ detail
  | .stated reason => reason

/-- An error of this library. -/
inductive ExtractError
  | inputOutput (e : IoError)
  /-- The destination cannot be resolved to a directory. -/
  | destinationUnavailable (reason : String)
  /-- The starting node of a walk cannot be listed. -/
  | listFailed (path : String) (source : IoError)
  | invalidPath (e : InvalidPath)
  | unsupportedFormat
  | invalidArchive (fault : ArchiveFault)
  deriving DecidableEq

/-- The text of an unusable path. -/
def InvalidPath.message (e : InvalidPath) : String :=
  "invalid asset path '" ++ e.path ++ "': " ++ e.fault.message

namespace ExtractError

/-- The text of an error. -/
def message : ExtractError → String
  | .inputOutput e => "I/O error: " ++ e.message
  | .destinationUnavailable reason => "destination directory unavailable: " ++ reason
  | .listFailed path source =>
    "failed to list assets under '" ++ path ++ "': " ++ source.message
  | .invalidPath e => e.message
  | .unsupportedFormat => "unsupported package format"
  | .invalidArchive fault => "invalid package archive: " ++ fault.message

/-- Whether the error keeps an extraction from starting at all. -/
def isFatal : ExtractError → Bool
  | .destinationUnavailable _ | .listFailed _ _ | .unsupportedFormat | .invalidArchive _ => true
  | .inputOutput _ | .invalidPath _ => false

/-- The detail that an error carries, if it carries one. -/
def context? : ExtractError → Option String
  | .invalidArchive fault => some fault.message
  | .destinationUnavailable reason => some reason
  | .invalidPath e => some e.fault.message
  | .inputOutput _ | .listFailed _ _ | .unsupportedFormat => none

/-- The I/O error behind an error. -/
def cause? : ExtractError → Option IoError
  | .inputOutput e => some e
  | .listFailed _ source => some source
  | _ => none

end ExtractError

end AssetUnpack
