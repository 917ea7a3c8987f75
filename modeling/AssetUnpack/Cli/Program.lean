import AssetUnpack.Cli.Advice
import AssetUnpack.Cli.Arguments
import AssetUnpack.Cli.Log
import AssetUnpack.Cli.Output
import AssetUnpack.Extraction
import AssetUnpack.Package

/-!
# Runs of the program

A run reads its arguments, sets up its log, performs its command on the disk and tells how that
went. A command that fails says why in the words of the command line, prints nothing else and exits
with code 1.
-/

namespace AssetUnpack.Cli

/-! ## Commands -/

/-- What a command has to tell. -/
inductive Answer
  | report (r : Report)
  | manifest (long : Bool) (m : Manifest)
  | script (shell : Shell)

/-- How a command ended. -/
structure Ending where
  /-- What there is to tell, or why the command failed. -/
  result : Except String Answer
  disk : Disk
  /-- What happened, oldest first. -/
  events : List Event

/-- A command that failed before anything was written. -/
def Ending.refused (source : String) (disk : Disk) (events : List Event) (e : ExtractError) :
    Ending :=
  ⟨.error (advice source e), disk, events⟩

namespace ExtractArguments

/-- How the extraction is to be done, starting at a node. -/
def config (a : ExtractArguments) (sourceRoot : AssetPath) : ExtractConfig where
  force := a.force
  emptyDirectories := if a.createEmptyDirectories then .create else .skip
  sourceRoot := sourceRoot

/-- The directory to extract into. -/
def destination (a : ExtractArguments) (disk : Disk) : HostPath :=
  ⟨a.outputDirectory.getD (Disk.pathOf disk.workingDirectory)⟩

/-- Extract. The path of the starting node is looked at before the source is opened. -/
def perform (a : ExtractArguments) (disk : Disk) : Ending :=
  match AssetPath.parse a.subtree with
  | .error e => .refused a.source disk [] (.invalidPath e)
  | .ok sourceRoot =>
    match Source.openPackage disk ⟨a.source⟩ a.scope with
    | (.error e, events) => .refused a.source disk events e
    | (.ok s, events) =>
      let out := extractInto s (a.config sourceRoot) (a.destination disk) disk
      match out.result with
      | .error e => .refused a.source out.disk (events ++ out.events) e
      | .ok r => ⟨.ok (.report r), out.disk, events ++ out.events⟩

end ExtractArguments

namespace ListArguments

/-- List everything below the root of a source. -/
def perform (a : ListArguments) (disk : Disk) : Ending :=
  match Source.openPackage disk ⟨a.source⟩ a.scope with
  | (.error e, events) => .refused a.source disk events e
  | (.ok s, events) =>
    match Manifest.ofSource s disk .root with
    | (.error e, listed) => .refused a.source disk (events ++ listed) e
    | (.ok m, listed) => ⟨.ok (.manifest a.long m), disk, events ++ listed⟩

end ListArguments

/-- Perform a command. -/
def Command.perform (disk : Disk) : Command → Ending
  | .extract a => a.perform disk
  | .list a => a.perform disk
  | .completion shell => ⟨.ok (.script shell), disk, []⟩

/-! ## What a run prints -/

/-- The name of the program. -/
def programName : String := "assetmirror"

/-- The version of the program. -/
def programVersion : String := "0.1.0"

/-- The line that tells the version. -/
def versionLine : Part → String
  | .program => programName ++ " " ++ programVersion
  | .command verb => programName ++ "-" ++ verb.word ++ " " ++ programVersion

/-- The words that can follow the name of the program. -/
def topics : String := " ".intercalate ["extract", "list", "completion", helpWord]

/-- A script that lets a shell complete the first word. -/
def completionScript : Shell → String
  | .bash => unlines ["complete -W '" ++ topics ++ "' " ++ programName]
  | .elvish =>
    unlines
      ["set edit:completion:arg-completer[" ++ programName ++ "] = \x7b|@words| put " ++ topics
        ++ " \x7d"]
  | .fish => unlines ["complete -c " ++ programName ++ " -f -a '" ++ topics ++ "'"]
  | .powershell =>
    unlines
      ["Register-ArgumentCompleter -Native -CommandName " ++ programName
        ++ " -ScriptBlock \x7b '" ++ topics ++ "' -split ' ' \x7d"]
  | .zsh =>
    unlines
      ["#compdef " ++ programName, "compadd " ++ topics]

/-- How the program is called. -/
def usageText : String :=
  unlines
    ["Usage:",
     "  " ++ programName ++ " extract SOURCE [OUTPUT_DIR] [--prefix PREFIX] [--subtree PATH]"
       ++ " [--create-empty-dirs] [-f|--force]",
     "  " ++ programName ++ " list SOURCE [--prefix PREFIX] [-l|--long]",
     "  " ++ programName ++ " completion SHELL",
     "",
     "Everywhere: [-v|--verbose] [-q|--quiet] [-j|--json] [-h|--help] [-V|--version]"]

/-- How a result is to be printed. -/
def Request.style (r : Request) (colors : Bool) : OutputStyle :=
  ⟨r.json, r.verbose, r.quiet, colors⟩

/-- What is printed for an answer. -/
def Answer.print (style : OutputStyle) : Answer → String
  | .report r => printReport style r
  | .manifest long m => printManifest style long m
  | .script shell => completionScript shell

/-- An answer with the time that the command took, in nanoseconds. -/
def Answer.timed (nanos : Nat) : Answer → Answer
  | .report r => .report { r with duration := nanos }
  | answer => answer

/-! ## Runs -/

/-- What a finished run leaves. -/
structure Exit where
  code : Nat
  stdout : String
  stderr : String

/-- The line that closes a failed run. -/
def errorLines (text : String) : String := unlines ["Error: " ++ text]

/-- An error with its causes below it, numbered if there are several. -/
def withCauses (text : String) : List String → String
  | [] => text
  | [cause] => text ++ "\n\nCaused by:\n    " ++ cause
  | causes =>
    text ++ "\n\nCaused by:"
      ++ String.join (causes.zipIdx.map fun (cause, i) =>
        "\n    " ++ String.ofList (Text.decimal i) ++ ": " ++ cause)

/-- What a run leaves that ends before a command. -/
def Halt.exit (h : Halt) : Exit :=
  match h with
  | .misuse _ => ⟨h.exitCode, "", usageText⟩
  | .help => ⟨h.exitCode, usageText, ""⟩
  | .version part => ⟨h.exitCode, unlines [versionLine part], ""⟩

/-- The name of the variable that holds the log filter. -/
def logVariable : String := "ASSETMIRROR_LOG"

/-- A run that is ready to perform its command. -/
structure Job where
  request : Request
  filter : LogFilter

namespace Job

/-- Read the arguments and the log filter, if one was given. -/
def prepare (arguments : List String) (filter : Option String) : Except Exit Job :=
  match parseArguments arguments with
  | .error h => .error h.exit
  | .ok request =>
    match filter.map LogFilter.parse with
    | none => .ok ⟨request, .standard request.verbose request.quiet⟩
    | some (.ok filter) => .ok ⟨request, filter⟩
    | some (.error fault) =>
      .error ⟨1, "", errorLines (withCauses ("invalid " ++ logVariable) fault.causes)⟩

/-- What the run leaves once its command has ended after so many nanoseconds. -/
def exit (job : Job) (colors : Bool) (nanos : Nat) (ending : Ending) : Exit :=
  let log := unlines (job.filter.lines ending.events)
  match ending.result with
  | .ok answer => ⟨0, (answer.timed nanos).print (job.request.style colors), log⟩
  | .error text => ⟨1, "", log ++ errorLines text⟩

end Job

/-- A whole run on a disk whose command takes so many nanoseconds: what it leaves, and the disk after
it. -/
def runOn (arguments : List String) (filter : Option String) (colors : Bool) (nanos : Nat)
    (disk : Disk) : Exit × Disk :=
  match Job.prepare arguments filter with
  | .error exit => (exit, disk)
  | .ok job =>
    let ending := job.request.command.perform disk
    (job.exit colors nanos ending, ending.disk)

end AssetUnpack.Cli
