import AssetUnpack.JsonValue
import AssetUnpack.Manifest
import AssetUnpack.Report

/-!
# What the command line prints

Reports and manifests are printed for people, line by line, or as one JSON document. Quiet output
prints nothing for people; a document is printed whatever else was asked for.
-/

namespace AssetUnpack.Cli

/-- How results are to be printed. -/
structure OutputStyle where
  json : Bool
  verbose : Bool
  quiet : Bool
  colors : Bool

/-! ## Documents -/

/-- How an operation went. -/
inductive Status
  | success
  /-- Completed, but some nodes failed. -/
  | partially
  deriving DecidableEq

/-- The word for a status. -/
def Status.text : Status → String
  | .success => "success"
  | .partially => "partial"

/-- The document of an operation. -/
def document (operation : String) (status : Status) (data : JsonValue) : JsonValue :=
  .object [("operation", .text operation), ("status", .text status.text), ("data", data)]

/-- The document of an extraction. -/
def reportDocument (r : Report) : JsonValue :=
  document "extract" (if r.isClean then .success else .partially)
    (.object
      [("files_copied", .number r.filesCopied),
       ("files_skipped", .number r.filesSkipped),
       ("directories_created", .number r.directoriesCreated),
       ("leaves_unreadable", .number r.leavesUnreadable),
       ("nodes_failed", .number r.nodesFailed),
       ("bytes_written", .number r.bytesWritten),
       ("duration_ms", .number (r.duration / Text.millisecond)),
       ("warnings", .array (r.warnings.map fun w => .text w.message))])

/-- A kind in a document; null where nobody knows. -/
def kindValue : Option NodeKind → JsonValue
  | some .file => .text "file"
  | some .directory => .text "directory"
  | none => .null

/-- The document of a listing. -/
def manifestDocument (m : Manifest) : JsonValue :=
  document "list" .success
    (.object
      [("total_entries", .number m.totalEntries),
       ("total_files", .number m.totalFiles),
       ("total_directories", .number m.totalDirectories),
       ("nodes_failed", .number m.nodesFailed),
       ("entries", .array (m.entries.map fun e =>
          .object [("path", .text e.path.text), ("kind", kindValue e.kind)]))])

/-! ## Lines -/

/-- A text in bold and in the colour with this code. -/
def styled (code text : String) : String := "\x1b[" ++ code ++ "m\x1b[1m" ++ text ++ "\x1b[0m"

/-- The line that heads a report. -/
def header (colors : Bool) (r : Report) : String :=
  let message :=
    if r.isClean then "Extraction complete" else "Extraction complete with failures"
  if !colors then message
  else if r.isClean then styled "32" "✓" ++ " " ++ message
  else styled "33" "⚠" ++ " " ++ message

/-- The lines of a report. -/
def reportLines (style : OutputStyle) (r : Report) : List String :=
  [header style.colors r,
   "  Files copied:     " ++ Text.grouped r.filesCopied,
   "  Files skipped:    " ++ Text.grouped r.filesSkipped,
   "  Directories:      " ++ Text.grouped r.directoriesCreated,
   "  Total size:       " ++ Text.size r.bytesWritten]
  ++ (if style.verbose then
       ["  Unreadable:       " ++ String.ofList (Text.decimal r.leavesUnreadable),
        "  Duration:         " ++ Text.duration r.duration]
      else [])
  ++ (if r.hasWarnings then
       ["", if style.colors then styled "33" "Warnings:" else "Warnings:"]
         ++ r.warnings.map fun w => "  - " ++ w.message
      else [])

/-- The lines of a listing that shows paths; those of directories end in a slash. -/
def shortLines (m : Manifest) : List String :=
  m.entries.map fun e =>
    if e.kind = some .directory then e.path.text ++ "/" else e.path.text

/-- The mark of a kind. -/
def kindMark : Option NodeKind → String
  | some .directory => "d"
  | some .file => "-"
  | none => "?"

/-- The lines of a listing that shows kinds and totals. -/
def longLines (m : Manifest) : List String :=
  m.entries.map (fun e => kindMark e.kind ++ " " ++ e.path.text)
  ++ ["", "Total: " ++ Text.grouped m.totalFiles ++ " files, "
        ++ Text.grouped m.totalDirectories ++ " directories"
        ++ (if 0 < m.totalUnknown then ", " ++ Text.grouped m.totalUnknown ++ " unclassified"
            else "")]
  ++ (if 0 < m.nodesFailed then
       ["  " ++ String.ofList (Text.decimal m.nodesFailed) ++ " entries could not be listed"]
      else [])

/-! ## Printing -/

/-- Lines as text. -/
def unlines (lines : List String) : String := String.join (lines.map (· ++ "\n"))

/-- A document, or lines unless the output is to be quiet. -/
def print (style : OutputStyle) (doc : JsonValue) (lines : List String) : String :=
  if style.json then doc.pretty ++ "\n"
  else if style.quiet then ""
  else unlines lines

/-- What is printed for a report. -/
def printReport (style : OutputStyle) (r : Report) : String :=
  print style (reportDocument r) (reportLines style r)

/-- What is printed for a listing. -/
def printManifest (style : OutputStyle) (long : Bool) (m : Manifest) : String :=
  print style (manifestDocument m) (if long then longLines m else shortLines m)

end AssetUnpack.Cli
