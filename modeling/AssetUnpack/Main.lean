import AssetUnpack.Cli.Program

/-!
# The program

The outermost layer: it reads the part of the disk that a command can reach into a `Disk`, lets the
command run on it and carries out what has changed. What is read is the source with everything below
it, and for an extraction every entry that stands where a node of the source would go. All decisions
are made by `Cli.Job`.
-/

namespace AssetUnpack.Cli

/-- The names of an absolute path. -/
def placeOf (path : String) : Place := (⟨path⟩ : HostPath).steps

/-! ## Reading the disk -/

/-- What stands under a name in a directory, links not followed. -/
def typeOf? (entry : IO.FS.DirEntry) : IO (Option IO.FS.FileType) := do
  try
    let metadata ← entry.path.symlinkMetadata
    return some metadata.type
  catch _ => return none

/-- Where a path leads through all links. -/
def targetOf? (path : String) : IO (Option String) := do
  try
    let target ← IO.FS.realPath path
    return some target.toString
  catch _ => return none

mutual

/-- Read one entry of a directory, unless it is known, and what it leads to if it is a link. A link
that leads nowhere is kept only if it is wanted, as one to a free place. -/
partial def readEntry (d : Disk) (keepDangling : Bool) (parent : Place) (name : String) :
    IO Disk := do
  let place := parent ++ [name]
  if (d.table.get? place).isSome then return d
  let path := Disk.pathOf place
  match ← typeOf? ⟨Disk.pathOf parent, name⟩ with
  | none => return d
  | some .dir => return d.put place .directory
  | some .file =>
    let content ← IO.FS.readBinFile path
    return d.putFile place content.toList
  | some .other => return d.put place (.device .null)
  | some .symlink =>
    match ← targetOf? path with
    | none => return if keepDangling then d.put place (.link (path ++ ".missing")) else d
    | some target =>
      let (d, _) ← readSteps (d.put place (.link target)) keepDangling [] (placeOf target)
      return d

/-- Read the entries that a walk through steps passes; gives the place where it ends if that is
there. -/
partial def readSteps (d : Disk) (keepDangling : Bool) (place : Place) :
    List String → IO (Disk × Option Place)
  | [] => return (d, some place)
  | "." :: rest | "" :: rest => readSteps d keepDangling place rest
  | ".." :: rest => readSteps d keepDangling place.dropLast rest
  | step :: rest => do
    let d ← readEntry d keepDangling place step
    match d.table.get? (place ++ [step]) with
    | none => return (d, none)
    | some (.link target) => readSteps d keepDangling [] (placeOf target ++ rest)
    | some _ => readSteps d keepDangling (place ++ [step]) rest

end

/-- Read everything below a place. -/
partial def readTree (d : Disk) (place : Place) : IO Disk := do
  if d.get? place ≠ some .directory then return d
  let mut d := d
  let directory ← IO.FS.realPath (Disk.pathOf place)
  for entry in ← directory.readDir do
    d ← readEntry d true place entry.fileName
    d ← readTree d (place ++ [entry.fileName])
  return d

/-- Read a path from where it starts. -/
def readPath (d : Disk) (keepDangling : Bool) (path : HostPath) : IO (Disk × Option Place) :=
  readSteps d keepDangling (if path.isAbsolute then [] else d.workingDirectory) path.steps

/-- Read a source and everything below it. -/
def readSource (d : Disk) (path : HostPath) : IO Disk := do
  match ← readPath d true path with
  | (d, some place) => readTree d place
  | (d, none) => return d

/-- Read what stands where an extraction would put something. -/
def readDestination (a : ExtractArguments) (d : Disk) : IO Disk := do
  let destination := a.destination d
  let (d, _) ← readPath d false destination
  let .ok root := AssetPath.parse a.subtree | return d
  let (.ok source, _) := Source.openPackage d ⟨a.source⟩ a.scope | return d
  let (.ok manifest, _) := Manifest.ofSource source d root | return d
  let mut d := d
  for path in root :: manifest.entries.map (·.path) do
    let below := (path.stripBase? root).getD .root
    (d, _) ← readPath d false (destination.under below)
  if let some name := root.fileName? then
    (d, _) ← readPath d false (destination.push name)
  return d

/-- Read what a command can reach. -/
def readDisk (command : Command) : IO Disk := do
  let here ← IO.currentDir
  let start := Disk.empty (placeOf here.toString)
  let (d, _) ← readSteps start false [] start.workingDirectory
  match command with
  | .extract a => readDestination a (← readSource d ⟨a.source⟩)
  | .list a => readSource d ⟨a.source⟩
  | .completion _ => return d

/-! ## Carrying out -/

/-- The entries that a command made or changed, oldest first. -/
def changes (before after : Disk) : List (Place × DiskEntry) :=
  after.table.entries.filter fun (place, entry) => before.table.get? place ≠ some entry

/-- Carry out what a command changed. Nothing is ever removed. -/
def carryOut (before after : Disk) : IO Unit := do
  for (place, entry) in changes before after do
    match entry with
    | .directory => IO.FS.createDirAll (Disk.pathOf place)
    | .file _ content => IO.FS.writeBinFile (Disk.pathOf place) ⟨content.toArray⟩
    | _ => pure ()

/-- Print what a run leaves and give its exit code. -/
def finish (exit : Exit) : IO UInt32 := do
  IO.eprint exit.stderr
  IO.print exit.stdout
  return exit.code.toUInt32

/-- Run the program with its arguments. -/
def runProgram (arguments : List String) : IO UInt32 := do
  match Job.prepare arguments (← IO.getEnv logVariable) with
  | .error exit => finish exit
  | .ok job =>
    let before ← readDisk job.request.command
    let started ← IO.monoNanosNow
    let ending ← IO.lazyPure fun _ => job.request.command.perform before
    let ended ← IO.monoNanosNow
    carryOut before ending.disk
    finish (job.exit (← (← IO.getStdout).isTty) (ended - started) ending)

end AssetUnpack.Cli

/-- The entry point. -/
def main (arguments : List String) : IO UInt32 := AssetUnpack.Cli.runProgram arguments
