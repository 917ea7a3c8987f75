import AssetUnpack.ExtractError

/-!
# Errors as the command line tells them

The command line names the source that was processed and adds a hint on what to check.
-/

namespace AssetUnpack.Cli

/-- The text that the command line gives for an error met with a source. -/
def advice (source : String) : ExtractError → String
  | .destinationUnavailable reason =>
    "Destination directory unavailable: " ++ reason
      ++ "\nHINT: The output directory must already exist and be writable."
  | .listFailed path e =>
    "Cannot list assets at '" ++ (if path = "" then "/" else path) ++ "' in '" ++ source ++ "': "
      ++ e.message ++ "\nHINT: Check --prefix and --subtree; nothing was extracted."
  | .invalidPath e =>
    "Invalid asset path '" ++ e.path ++ "': " ++ e.fault.message
      ++ "\nHINT: Asset paths are relative and slash-separated, without '.' or '..'."
  | .inputOutput e => "I/O error while processing '" ++ source ++ "': " ++ e.message
  | .unsupportedFormat =>
    "Asset source format not supported: " ++ source
      ++ "\nHINT: Supported sources: directory, zip, apk, jar, aar, tar, tar.gz"
  | .invalidArchive fault =>
    "Invalid package '" ++ source ++ "': " ++ fault.message
      ++ "\nHINT: The package may be corrupted or truncated."

end AssetUnpack.Cli
