import AssetUnpack.Cli.Output
import AssetUnpack.Proofs.AssetPath.Texts
import AssetUnpack.Proofs.Json.Rendered

/-!
# What a printed document tells

Whoever runs the program for its documents has the text and a JSON reader, and should
get from it what the report or the manifest was. `reportData?` and `manifestData?` are
such a consumer: they look members up by their names, and know neither how a document
is laid out nor in which order its members stand.
-/

namespace AssetUnpack

namespace Json

def member? (name : String) : Json → Option Json
  | object members => members.lookup name
  | _ => none

def text? : Json → Option String
  | text s => some s
  | _ => none

def array? : Json → Option (List Json)
  | array items => some items
  | _ => none

/-- A number, if it is whole and not negative. -/
def nat? : Json → Option Nat
  | number ⟨.ofNat mantissa, .ofNat exponent⟩ => some (mantissa * Nat.pow 10 exponent)
  | _ => none

theorem nat?_number (n : Nat) : (number ⟨n, 0⟩).nat? = some n :=
  congrArg some (Nat.mul_one n)

end Json

namespace Cli

/-- What the document of an extraction tells. -/
structure ReportData where
  filesCopied : Nat
  filesSkipped : Nat
  directoriesCreated : Nat
  leavesUnreadable : Nat
  nodesFailed : Nat
  bytesWritten : Nat
  milliseconds : Nat
  warnings : List String

/-- What there is to tell of a report. A millisecond is a million nanoseconds. -/
def ReportData.of (r : Report) : ReportData where
  filesCopied := r.filesCopied
  filesSkipped := r.filesSkipped
  directoriesCreated := r.directoriesCreated
  leavesUnreadable := r.leavesUnreadable
  nodesFailed := r.nodesFailed
  bytesWritten := r.bytesWritten
  milliseconds := r.duration / 1000000
  warnings := r.warnings.map Warning.message

/-- What the document of a listing tells. -/
structure ManifestData where
  entries : List ManifestEntry
  nodesFailed : Nat
  totalEntries : Nat
  totalFiles : Nat
  totalDirectories : Nat

/-- What there is to tell of a manifest. -/
def ManifestData.of (m : Manifest) : ManifestData where
  entries := m.entries
  nodesFailed := m.nodesFailed
  totalEntries := m.entries.length
  totalFiles := m.entries.countP (·.kind = some .file)
  totalDirectories := m.entries.countP (·.kind = some .directory)

/-! ## The consumer -/

def reportData? (printed : String) : Option ReportData := do
  let data ← (← Json.read printed).member? "data"
  let figure (name : String) : Option Nat := do (← data.member? name).nat?
  let filesCopied ← figure "files_copied"
  let filesSkipped ← figure "files_skipped"
  let directoriesCreated ← figure "directories_created"
  let leavesUnreadable ← figure "leaves_unreadable"
  let nodesFailed ← figure "nodes_failed"
  let bytesWritten ← figure "bytes_written"
  let milliseconds ← figure "duration_ms"
  let warnings ← (← (← data.member? "warnings").array?).mapM Json.text?
  some { filesCopied, filesSkipped, directoriesCreated, leavesUnreadable, nodesFailed,
         bytesWritten, milliseconds, warnings }

def kind? : Json → Option (Option NodeKind)
  | .null => some none
  | .text s =>
    if s = "file" then some (some .file)
    else if s = "directory" then some (some .directory)
    else none
  | _ => none

def entryOf? (j : Json) : Option ManifestEntry := do
  let path ← (← j.member? "path").text?
  let kind ← kind? (← j.member? "kind")
  match AssetPath.parse path with
  | .ok path => some ⟨path, kind⟩
  | .error _ => none

def manifestData? (printed : String) : Option ManifestData := do
  let data ← (← Json.read printed).member? "data"
  let figure (name : String) : Option Nat := do (← data.member? name).nat?
  let entries ← (← (← data.member? "entries").array?).mapM entryOf?
  let nodesFailed ← figure "nodes_failed"
  let totalEntries ← figure "total_entries"
  let totalFiles ← figure "total_files"
  let totalDirectories ← figure "total_directories"
  some { entries, nodesFailed, totalEntries, totalFiles, totalDirectories }

/-! ## Reading the documents -/

theorem mapM_map_eq_some {α β γ : Type} {f : α → β} {g : β → Option γ} {h : α → γ}
    (hread : ∀ a, g (f a) = some (h a)) (as : List α) : (as.map f).mapM g = some (as.map h) := by
  induction as with
  | nil => rfl
  | cons a as ih =>
      rw [List.map_cons, List.mapM_cons, hread, ih]
      rfl

/-- A printed document is the document and the end of the line. -/
theorem read_print {style : OutputStyle} (hjson : style.json = true) (doc : JsonValue)
    (lines : List String) : Json.read (print style doc lines) = some doc.toJson := by
  have hblank : ∀ c ∈ "\n".toList, Json.isBlank c = true :=
    List.all_eq_true.mp rfl
  rw [print, if_pos hjson]
  exact doc.read_pretty hblank

def entryValue (e : ManifestEntry) : JsonValue :=
  .object [("path", .text e.path.text), ("kind", kindValue e.kind)]

theorem kind?_kindValue (kind : Option NodeKind) : kind? (kindValue kind).toJson = some kind := by
  cases kind with
  | none => rfl
  | some kind => cases kind <;> rfl

theorem entryOf?_entryValue (e : ManifestEntry) : entryOf? (entryValue e).toJson = some e := by
  have hpath : (entryValue e).toJson.member? "path" = some (.text e.path.text) := rfl
  have hkind : (entryValue e).toJson.member? "kind" = some (kindValue e.kind).toJson := rfl
  rw [entryOf?, hpath, hkind]
  simp only [Option.bind_eq_bind, Option.bind_some, Json.text?, kind?_kindValue,
    AssetPath.parse_text]

theorem mapM_text?_warnings (ws : List Warning) :
    (JsonValue.itemsToJson (ws.map fun w => .text w.message)).mapM Json.text? =
      some (ws.map Warning.message) := by
  have hread (w : Warning) : Json.text? (JsonValue.toJson (.text w.message)) = some w.message := rfl
  rw [JsonValue.itemsToJson_eq_map, List.map_map]
  exact mapM_map_eq_some hread ws

theorem mapM_entryOf?_entries (es : List ManifestEntry) :
    (JsonValue.itemsToJson (es.map entryValue)).mapM entryOf? = some es := by
  rw [JsonValue.itemsToJson_eq_map, List.map_map]
  have hread := mapM_map_eq_some (f := JsonValue.toJson ∘ entryValue) (h := id)
    entryOf?_entryValue es
  rwa [List.map_id] at hread

theorem reportData?_print {style : OutputStyle} (hjson : style.json = true) (r : Report) :
    reportData? (printReport style r) = some (.of r) := by
  rw [reportData?, printReport, read_print hjson, reportDocument, document]
  simp only [JsonValue.toJson, JsonValue.membersToJson, Json.member?, List.lookup_cons,
    String.reduceBEq, Json.nat?_number, Json.array?, mapM_text?_warnings,
    Option.bind_eq_bind, Option.bind_some]
  rfl

theorem manifestData?_print {style : OutputStyle} (hjson : style.json = true) (long : Bool)
    (m : Manifest) : manifestData? (printManifest style long m) = some (.of m) := by
  have hentries : (m.entries.map fun e => JsonValue.object
      [("path", .text e.path.text), ("kind", kindValue e.kind)]) = m.entries.map entryValue := rfl
  have hfiles : m.totalFiles = m.entries.countP (·.kind = some .file) :=
    (List.countP_eq_length_filter ..).symm
  have hdirectories : m.totalDirectories = m.entries.countP (·.kind = some .directory) :=
    (List.countP_eq_length_filter ..).symm
  rw [manifestData?, printManifest, read_print hjson, manifestDocument, document, hentries,
    hfiles, hdirectories]
  simp only [JsonValue.toJson, JsonValue.membersToJson, Json.member?, List.lookup_cons,
    String.reduceBEq, Json.nat?_number, Json.array?, mapM_entryOf?_entries,
    Option.bind_eq_bind, Option.bind_some]
  rfl

/-- A printed document gives back all that there is to tell, so documents of reports or
of manifests that differ in any of it are different texts. -/
theorem documents_tell_all (style : OutputStyle) (hjson : style.json = true) :
    (∀ r, reportData? (printReport style r) = some (.of r)) ∧
      (∀ long m, manifestData? (printManifest style long m) = some (.of m)) ∧
      (∀ r r', printReport style r = printReport style r' → ReportData.of r = .of r') ∧
      ∀ long long' m m', printManifest style long m = printManifest style long' m' →
        ManifestData.of m = .of m' := by
  refine ⟨reportData?_print hjson, manifestData?_print hjson, fun r r' h => ?_,
    fun long long' m m' h => ?_⟩
  · have hread := reportData?_print hjson r
    rw [h, reportData?_print hjson r'] at hread
    exact (Option.some.inj hread).symm
  · have hread := manifestData?_print hjson long m
    rw [h, manifestData?_print hjson long' m'] at hread
    exact (Option.some.inj hread).symm

/-- A report whose warning has quotes, a backslash, a line break and a control. -/
def oddReport : Report :=
  { filesCopied := 3, nodesFailed := 1, duration := 1999999
    warnings := [.stated "\"\\\n\x1b é"] }

theorem documents_tell_all_odd :
    reportData? (printReport ⟨true, false, true, false⟩ oddReport) =
        some ⟨3, 0, 0, 0, 1, 0, 1, ["\"\\\n\x1b é"]⟩ ∧
      manifestData? (printManifest ⟨true, false, false, true⟩ true
          ⟨.root, [⟨.root, none⟩, ⟨.root, some .directory⟩], 2⟩) =
        some ⟨[⟨.root, none⟩, ⟨.root, some .directory⟩], 2, 2, 0, 1⟩ := by
  obtain ⟨hreport, -⟩ := documents_tell_all ⟨true, false, true, false⟩ rfl
  obtain ⟨-, hmanifest, -⟩ := documents_tell_all ⟨true, false, false, true⟩ rfl
  exact ⟨hreport oddReport, hmanifest true _⟩

end Cli

end AssetUnpack
