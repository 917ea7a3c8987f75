import AssetUnpack.Text.Quoted
import AssetUnpack.ExtractError

/-!
# Events

Everything noteworthy that happens while a package is opened, listed or extracted is an `Event`. An
event has a level, a message that never changes, and named fields in a fixed order.
-/

namespace AssetUnpack

/-- How much an event matters. -/
inductive Level
  | error | warn | info | debug
  deriving DecidableEq

namespace Level

/-- The name of a level where events are written as lines. -/
def name : Level → String
  | .error => "ERROR"
  | .warn => "WARN"
  | .info => "INFO"
  | .debug => "DEBUG"

/-- Levels that matter less have a higher rank. -/
def rank : Level → Nat
  | .error => 1
  | .warn => 2
  | .info => 3
  | .debug => 4

end Level

/-- The value of a field. -/
inductive FieldValue
  /-- A text shown as it stands. -/
  | shown (s : String)
  /-- A text shown between quotes where events are written as lines. -/
  | quoted (s : String)
  | number (n : Nat)
  | flag (b : Bool)
  deriving DecidableEq

/-- What can happen. -/
inductive Event
  | openingPackage (source format : String)
  | encryptedEntry (entry : String)
  | unusableZipEntry (entry : String) (e : InvalidPath)
  | indexedZip (entries nodes : Nat) (scope : AssetPath)
  | nameNotText (entry : String)
  | unsupportedMember (entry memberType : String)
  | unusableTarEntry (entry : String) (e : InvalidPath)
  | conflictingTarEntry (entry : String) (e : InvalidPath)
  | loadedTar (entries : Nat) (scope : AssetPath)
  | directoryLink (link : String)
  | unlistableNode (path : AssetPath) (e : IoError)
  | listed (root : AssetPath) (entries : Nat)
  | invalidName (parent : AssetPath) (name : String) (e : InvalidPath)
  | started (source : AssetPath) (dest : String) (force : Bool)
  | nothingToExtract (source : AssetPath)
  | failedToList (path : AssetPath) (e : IoError)
  | failedToOpen (path : AssetPath) (e : IoError)
  | unreadableLeaf (path : AssetPath) (e : IoError)
  | copied (path : AssetPath) (dest : String) (bytes : Nat)
  | alreadyExists (path : AssetPath) (dest : String)
  | failedToWrite (path : AssetPath) (dest : String) (e : IoError)
  | emptyDirectorySkipped (path : AssetPath)
  | createdDirectory (dest : String)
  | failedToCreate (dest : String) (e : IoError)
  | finished (filesCopied filesSkipped directoriesCreated nodesFailed bytes : Nat)
  | aborted (e : ExtractError)
  deriving DecidableEq

namespace Event

/-- The name under which all events are known to a log. -/
def target : String := "asset_extractor"

/-- The level of an event. -/
def level : Event → Level
  | .failedToList _ _ | .aborted _ => .error
  | .encryptedEntry _ | .unusableZipEntry _ _ | .nameNotText _ | .unusableTarEntry _ _
  | .conflictingTarEntry _ _ | .directoryLink _ | .unlistableNode _ _ | .invalidName _ _ _
  | .failedToOpen _ _ | .failedToWrite _ _ _ | .failedToCreate _ _ => .warn
  | .started _ _ _ | .nothingToExtract _ | .alreadyExists _ _ | .finished _ _ _ _ _ => .info
  | .openingPackage _ _ | .indexedZip _ _ _ | .unsupportedMember _ _ | .loadedTar _ _
  | .listed _ _ | .unreadableLeaf _ _ | .copied _ _ _ | .emptyDirectorySkipped _
  | .createdDirectory _ => .debug

/-- The message of an event. -/
def message : Event → String
  | .openingPackage _ _ => "opening asset package"
  | .encryptedEntry _ => "skipping encrypted ZIP entry"
  | .unusableZipEntry _ _ => "skipping unusable ZIP entry"
  | .indexedZip _ _ _ => "indexed ZIP package"
  | .nameNotText _ => "skipping TAR entry with a non UTF-8 name"
  | .unsupportedMember _ _ => "skipping unsupported TAR entry type"
  | .unusableTarEntry _ _ => "skipping unusable TAR entry"
  | .conflictingTarEntry _ _ => "skipping conflicting TAR entry"
  | .loadedTar _ _ => "loaded TAR bundle"
  | .directoryLink _ => "skipping directory symlink"
  | .unlistableNode _ _ | .failedToList _ _ => "failed to list assets"
  | .listed _ _ => "listed assets"
  | .invalidName _ _ _ => "skipping invalid asset name"
  | .started _ _ _ => "extracting assets"
  | .nothingToExtract _ => "no assets to extract"
  | .failedToOpen _ _ => "failed to open asset"
  | .unreadableLeaf _ _ => "asset cannot be opened, treating it as a directory"
  | .copied _ _ _ => "copied asset"
  | .alreadyExists _ _ => "asset already exists, skipping"
  | .failedToWrite _ _ _ => "failed to write asset"
  | .emptyDirectorySkipped _ => "skipping empty asset directory"
  | .createdDirectory _ => "created directory"
  | .failedToCreate _ _ => "failed to create directory"
  | .finished _ _ _ _ _ => "asset extraction finished"
  | .aborted _ => "asset extraction aborted"

/-- The fields of an event, in the order in which they are written. -/
def fields : Event → List (String × FieldValue)
  | .openingPackage source format => [("source", .shown source), ("format", .quoted format)]
  | .encryptedEntry entry => [("entry", .shown entry)]
  | .unusableZipEntry entry e | .unusableTarEntry entry e | .conflictingTarEntry entry e =>
    [("entry", .shown entry), ("error", .shown e.message)]
  | .indexedZip entries nodes scope =>
    [("entries", .number entries), ("nodes", .number nodes), ("prefix", .shown scope.text)]
  | .nameNotText entry => [("entry", .shown entry)]
  | .unsupportedMember entry memberType =>
    [("entry", .shown entry), ("entry_type", .shown memberType)]
  | .loadedTar entries scope => [("entries", .number entries), ("prefix", .shown scope.text)]
  | .directoryLink link => [("link", .shown link)]
  | .unlistableNode path e | .failedToList path e | .failedToOpen path e
  | .unreadableLeaf path e => [("path", .shown path.text), ("error", .shown e.message)]
  | .listed root entries => [("root", .shown root.text), ("entries", .number entries)]
  | .invalidName parent name e =>
    [("parent", .shown parent.text), ("name", .shown (Text.escaped name)),
      ("error", .shown e.message)]
  | .started source dest force =>
    [("source", .shown source.text), ("dest", .shown dest), ("force", .flag force)]
  | .nothingToExtract source => [("source", .shown source.text)]
  | .copied path dest bytes =>
    [("path", .shown path.text), ("dest", .shown dest), ("bytes", .number bytes)]
  | .alreadyExists path dest => [("path", .shown path.text), ("dest", .shown dest)]
  | .failedToWrite path dest e =>
    [("path", .shown path.text), ("dest", .shown dest),
      ("error", .shown (ExtractError.inputOutput e).message)]
  | .emptyDirectorySkipped path => [("path", .shown path.text)]
  | .createdDirectory dest => [("dest", .shown dest)]
  | .failedToCreate dest e => [("dest", .shown dest), ("error", .shown e.message)]
  | .finished filesCopied filesSkipped directoriesCreated nodesFailed bytes =>
    [("files_copied", .number filesCopied), ("files_skipped", .number filesSkipped),
      ("directories_created", .number directoriesCreated),
      ("nodes_failed", .number nodesFailed), ("bytes", .number bytes)]
  | .aborted e => [("error", .shown e.message)]

end Event

end AssetUnpack
