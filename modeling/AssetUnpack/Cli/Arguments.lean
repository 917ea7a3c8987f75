/-!
# The command line

A command line has two parts: what stands before the command, and what belongs to it. Each part
knows some switches, some options that take a value, and some operands, which are told apart by
their order alone.

A value is looked at only when the next known word comes, or at the end of the part. So of two
mistakes in one part a word that nobody knows wins over a bad value right before it. The part of
the command is read and judged in full before the part in front of it is judged.
-/

namespace AssetUnpack.Cli

/-! ## What can be asked for -/

/-- The shells for which completions can be made. -/
inductive Shell
  | bash | elvish | fish | powershell | zsh
  deriving DecidableEq

/-- The name of a shell. -/
def Shell.name : Shell → String
  | .bash => "bash"
  | .elvish => "elvish"
  | .fish => "fish"
  | .powershell => "powershell"
  | .zsh => "zsh"

/-- The shell of a name. -/
def Shell.named? (word : String) : Option Shell :=
  [bash, elvish, fish, powershell, zsh].find? fun shell => shell.name = word

/-- What a command is asked to extract. -/
structure ExtractArguments where
  source : String
  /-- Where to; the working directory if it is left out. -/
  outputDirectory : Option String
  /-- The path in the source that becomes the root. -/
  scope : String
  /-- The path below the root where the walk starts. -/
  subtree : String
  createEmptyDirectories : Bool
  force : Bool

/-- What a command is asked to list. -/
structure ListArguments where
  source : String
  /-- The path in the source that becomes the root. -/
  scope : String
  long : Bool

/-- A command with its arguments. -/
inductive Command
  | extract (a : ExtractArguments)
  | list (a : ListArguments)
  | completion (shell : Shell)

/-- A command, and how its result is to be told. -/
structure Request where
  command : Command
  verbose : Bool
  quiet : Bool
  json : Bool

/-! ## Words -/

/-- The commands. -/
inductive Verb
  | extract | list | completion
  deriving DecidableEq

/-- The word for a command. -/
def Verb.word : Verb → String
  | .extract => "extract"
  | .list => "list"
  | .completion => "completion"

/-- The command of a word. -/
def Verb.named? (word : String) : Option Verb :=
  [extract, list, completion].find? fun verb => verb.word = word

/-- The word that asks for help on what the words after it name. -/
def helpWord : String := "help"

/-- Whether help can be asked for under this word. -/
def isTopic (word : String) : Bool := word = helpWord || (Verb.named? word).isSome

/-- The parts of a command line. -/
inductive Part
  | program
  | command (verb : Verb)
  deriving DecidableEq

/-- What is either there or not. Help and the version end the reading where they stand. -/
inductive Switch
  | verbose | quiet | json | long | force | createEmptyDirectories | help | version
  deriving DecidableEq

/-- The word for a switch. -/
def Switch.word : Switch → String
  | .verbose => "verbose"
  | .quiet => "quiet"
  | .json => "json"
  | .long => "long"
  | .force => "force"
  | .createEmptyDirectories => "create-empty-dirs"
  | .help => "help"
  | .version => "version"

/-- The letter for a switch, if it has one. -/
def Switch.letter? : Switch → Option Char
  | .verbose => some 'v'
  | .quiet => some 'q'
  | .json => some 'j'
  | .long => some 'l'
  | .force => some 'f'
  | .createEmptyDirectories => none
  | .help => some 'h'
  | .version => some 'V'

/-- What takes a value. -/
inductive Slot
  | scope | subtree | source | outputDirectory | shell
  deriving DecidableEq

/-- The word for a value that is given as an option. -/
def Slot.word : Slot → String
  | .scope => "prefix"
  | .subtree => "subtree"
  | .source => "source"
  | .outputDirectory => "output-dir"
  | .shell => "shell"

/-- Whether a value can stand for what the slot holds. -/
def Slot.accepts (value : String) : Slot → Bool
  | .scope | .subtree => true
  | .source | .outputDirectory => value ≠ ""
  | .shell => (Shell.named? value).isSome

namespace Part

/-- The switches of every part. -/
def sharedSwitches : List Switch := [.verbose, .quiet, .json, .help, .version]

/-- The switches that a part knows. -/
def switches : Part → List Switch
  | .command .extract => [.createEmptyDirectories, .force] ++ sharedSwitches
  | .command .list => .long :: sharedSwitches
  | .command .completion | .program => sharedSwitches

/-- The options that a part knows. -/
def options : Part → List Slot
  | .command .extract => [.scope, .subtree]
  | .command .list => [.scope]
  | .command .completion | .program => []

/-- The operands that a part knows, in order. -/
def operands : Part → List Slot
  | .command .extract => [.source, .outputDirectory]
  | .command .list => [.source]
  | .command .completion => [.shell]
  | .program => []

/-- The operands that a part cannot do without. -/
def required : Part → List Slot
  | .command .extract | .command .list => [.source]
  | .command .completion => [.shell]
  | .program => []

end Part

/-! ## Mistakes -/

/-- What can be wrong with a command line. -/
inductive Misuse
  | unknownArgument
  | invalidCommand
  | invalidValue
  /-- A value for a switch, which takes none. -/
  | unwantedValue
  /-- Given twice, or together with what excludes it. -/
  | conflict
  | missingOperand
  | missingCommand
  /-- Nothing was given at all. -/
  | nothingGiven
  deriving DecidableEq

/-- Why a command line asks for no command. -/
inductive Halt
  | misuse (m : Misuse)
  | help
  | version (part : Part)
  deriving DecidableEq

/-- The exit code of a run that ends before a command. -/
def Halt.exitCode : Halt → Nat
  | .misuse _ => 2
  | .help | .version _ => 0

/-! ## Reading one part -/

/-- What a part has given so far. -/
structure Given where
  switches : List Switch := []
  values : List (Slot × String) := []
  /-- What comes next to be looked at: an option with or without its value, or an operand. -/
  pending : Option (Slot × Option String) := none
  /-- Whether `--` has been met, after which every word is an operand. -/
  literal : Bool := false

namespace Given

/-- The value in a slot. -/
def value? (g : Given) (slot : Slot) : Option String :=
  (g.values.find? (·.1 = slot)).map (·.2)

/-- Put a value into its slot. -/
def put (g : Given) (slot : Slot) (value : String) : Except Halt Given :=
  if (g.value? slot).isSome then .error (.misuse .conflict)
  else if slot.accepts value then .ok { g with values := g.values ++ [(slot, value)] }
  else .error (.misuse .invalidValue)

/-- Look at what is pending. -/
def settle (g : Given) : Except Halt Given :=
  match g.pending with
  | none => .ok g
  | some (_, none) => .error (.misuse .invalidValue)
  | some (slot, some value) => { g with pending := none }.put slot value

/-- The slot that the next operand goes to. -/
def nextOperand? (g : Given) (part : Part) : Option Slot :=
  part.operands.find? fun slot =>
    (g.value? slot).isNone && g.pending.all fun p => p.1 ≠ slot

/-- A word that is an operand. Where a part has no room for it, a command may have been meant. -/
def addOperand (g : Given) (part : Part) (word : String) : Except Halt Given :=
  match g.nextOperand? part with
  | some slot => do
    let g ← g.settle
    .ok { g with pending := some (slot, some word) }
  | none =>
    match part with
    | .command _ => .error (.misuse .unknownArgument)
    | .program =>
      .error (.misuse (if g.literal && isTopic word then .unknownArgument else .invalidCommand))

/-- A switch of the part. -/
def addSwitch (g : Given) (part : Part) (switch : Switch) : Except Halt Given := do
  let g ← g.settle
  match switch with
  | .help => .error .help
  | .version => .error (.version part)
  | switch =>
    if switch ∈ g.switches then .error (.misuse .conflict)
    else .ok { g with switches := g.switches ++ [switch] }

/-- Switches given by their letters. -/
def addLetters (g : Given) (part : Part) : List Char → Except Halt Given
  | [] => .ok g
  | c :: cs =>
    match part.switches.find? (·.letter? = some c) with
    | none => .error (.misuse .unknownArgument)
    | some switch => do
      let g ← g.addSwitch part switch
      g.addLetters part cs

/-- A switch or an option given by its word, with the value attached behind an equals sign, if
there is one. -/
def addNamed (g : Given) (part : Part) (name : String) (attached : Option String) :
    Except Halt Given :=
  match part.switches.find? (·.word = name) with
  | some switch =>
    match attached with
    | none => g.addSwitch part switch
    | some _ => .error (.misuse .unwantedValue)
  | none =>
    match part.options.find? (·.word = name) with
    | none => .error (.misuse .unknownArgument)
    | some slot => do
      let g ← g.settle
      match attached with
      | none => .ok { g with pending := some (slot, none) }
      | some value => g.put slot value

/-- Cut at the first equals sign. -/
def cutAttached (cs : List Char) : String × Option String :=
  let name := String.ofList (cs.takeWhile (· ≠ '='))
  match cs.dropWhile (· ≠ '=') with
  | [] => (name, none)
  | _ :: value => (name, some (String.ofList value))

/-- The next word of a part. A single dash is a word like any other. -/
def addWord (part : Part) (g : Given) (word : String) : Except Halt Given :=
  if g.literal then g.addOperand part word
  else
    match word.toList with
    | ['-', '-'] => .ok { g with literal := true }
    | '-' :: '-' :: cs =>
      let (name, attached) := cutAttached cs
      g.addNamed part name attached
    | '-' :: c :: cs => g.addLetters part (c :: cs)
    | _ =>
      match g.pending with
      | some (slot, none) => .ok { g with pending := some (slot, some word) }
      | _ => g.addOperand part word

/-- Judge a part that has been read. -/
def judge (g : Given) (part : Part) : Except Halt Unit :=
  if .verbose ∈ g.switches ∧ .quiet ∈ g.switches then .error (.misuse .conflict)
  else if part.required.all fun slot => (g.value? slot).isSome then .ok ()
  else .error (.misuse .missingOperand)

end Given

/-- Read and judge the part of a command. -/
def Verb.read (verb : Verb) (words : List String) : Except Halt Given := do
  let g ← words.foldlM (Given.addWord (.command verb)) {}
  let g ← g.settle
  g.judge (.command verb)
  return g

/-! ## Reading a command line -/

/-- The command that its part describes. -/
def Verb.command (verb : Verb) (g : Given) : Command :=
  let value (slot : Slot) : String := (g.value? slot).getD ""
  match verb with
  | .extract =>
    .extract
      { source := value .source
        outputDirectory := g.value? .outputDirectory
        scope := value .scope
        subtree := value .subtree
        createEmptyDirectories := .createEmptyDirectories ∈ g.switches
        force := .force ∈ g.switches }
  | .list => .list { source := value .source, scope := value .scope, long := .long ∈ g.switches }
  | .completion => .completion ((Shell.named? (value .shell)).getD .bash)

/-- What the words after `help` ask for: one topic at most. -/
def helpOn : List String → Halt
  | [] => .help
  | [word] => if isTopic word then .help else .misuse .invalidCommand
  | _ => .misuse .invalidCommand

/-- Read the rest of a command line behind what the part of the program has given. A switch that
both parts know counts wherever it stands. -/
def parseFrom (outer : Given) : List String → Except Halt Request
  | [] => .error (.misuse (if outer.switches = [] then .nothingGiven else .missingCommand))
  | word :: words =>
    match if outer.literal then none else Verb.named? word with
    | some verb => do
      let inner ← verb.read words
      outer.judge .program
      let switches := outer.switches ++ inner.switches
      return { command := verb.command inner
               verbose := .verbose ∈ switches
               quiet := .quiet ∈ switches
               json := .json ∈ switches }
    | none =>
      if !outer.literal && word = helpWord then .error (helpOn words)
      else do
        let outer ← outer.addWord .program word
        parseFrom outer words

/-- Read the arguments of a run. -/
def parseArguments (words : List String) : Except Halt Request := parseFrom {} words

end AssetUnpack.Cli
