import AssetUnpack.Source.Directory
import AssetUnpack.Tar.Bundle
import AssetUnpack.Zip.Package

/-!
# Packages on disk

A path is opened as a source by its format: a directory that is there is a directory, everything
else goes by the extension of its name, whatever the case of its letters. A zip package stays open
and is read from its file entry by entry, so what is written to that file later shows; a bundle is
loaded once.
-/

namespace AssetUnpack

/-- The formats that a source on disk can have. -/
inductive PackageFormat
  | directory | zip | tar | tarGz
  deriving DecidableEq

/-- The name of a format. -/
def PackageFormat.name : PackageFormat → String
  | .directory => "directory"
  | .zip => "zip"
  | .tar => "tar"
  | .tarGz => "tar.gz"

namespace PackageFormat

/-- The format that a name tells. A `gz` is a bundle only if the name before it ends in `.tar`. -/
def ofName? (path : HostPath) : Option PackageFormat :=
  match path.extension? with
  | none => none
  | some extension =>
    match String.ofList (extension.map Char.toLower) with
    | "zip" | "apk" | "jar" | "aar" => some .zip
    | "tar" => some .tar
    | "tgz" => some .tarGz
    | "gz" =>
      let stem := (path.stem?.getD []).map Char.toLower
      if [ '.', 't', 'a', 'r' ].isSuffixOf stem then some .tarGz else none
    | _ => none

/-- The format of a source on disk. -/
def detect (d : Disk) (path : HostPath) : Except ExtractError PackageFormat :=
  if d.hasDirectory path then .ok .directory
  else
    match ofName? path with
    | some format => .ok format
    | none => .error .unsupportedFormat

end PackageFormat

namespace Source

/-- The file that a path leads to: what it holds now, and what it holds later. -/
def openFile (d : Disk) (path : HostPath) : Except ExtractError (Bytes × (Disk → Bytes)) :=
  match d.resolve path with
  | .error e => .error (.inputOutput e)
  | .ok (_, .file number content) => .ok (content, fun d => d.contentOf number)
  | .ok _ => .ok ([], fun _ => [])

/-- Open a source on disk; `scope` is the text of the path in it that becomes the root. -/
def openPackage (d : Disk) (path : HostPath) (scope : String) :
    Except ExtractError Source × List Event :=
  match PackageFormat.detect d path with
  | .error e => (.error e, [])
  | .ok format =>
    let opening : Event := .openingPackage path.text format.name
    let packed (openBytes : Bytes → (Disk → Bytes) → Except ExtractError Source × List Event) :
        Except ExtractError Source × List Event :=
      match openFile d path with
      | .error e => (.error e, [opening])
      | .ok (now, bytes) =>
        let (result, events) := openBytes now bytes
        (result, opening :: events)
    match format with
    | .directory =>
      match AssetPath.parse scope with
      | .error e => (.error (.invalidPath e), [opening])
      | .ok scope => (openDirectory d (path.under scope), [opening])
    | .zip => packed fun now bytes => openZip now bytes scope
    | .tar => packed fun now _ => openTar now false scope
    | .tarGz => packed fun now _ => openTar now true scope

end Source

end AssetUnpack
