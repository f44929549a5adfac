import SlimTemplate.Command.Words

/-!
What a command line asks for. There are two commands, `convert` and `preview`, each with a path and
switches of its own.
-/

namespace SlimTemplate.Command

inductive Verb where
  | convert
  | preview
  deriving DecidableEq, Repr

namespace Verb

def name : Verb → String
  | convert => "convert"
  | preview => "preview"

def all : List Verb := [convert, preview]

def ofName? (s : String) : Option Verb :=
  all.find? (·.name == s)

end Verb

/-- The pages of help. -/
inductive Page where
  | general
  | about (verb : Verb)
  deriving DecidableEq, Repr

def Page.name : Page → String
  | .general => "slim2erb"
  | .about verb => "slim2erb " ++ verb.name

/-- Why the reading of a command line ends early. -/
inductive Stop where
  | help (page : Page)
  | version
  | usage (e : UsageError)
  deriving DecidableEq, Repr

inductive GeneralKey where
  | help
  | version
  | verbose
  deriving DecidableEq, Repr

inductive Key where
  | help
  | config
  | indentSize
  | noComments
  | voidElements
  | extension
  | diff
  | outputDirectory
  | noBackup
  | deleteSource
  | dryRun
  | yes
  | force
  deriving DecidableEq, Repr

def generalSwitches : List (Switch GeneralKey) :=
  [{ key := .help, names := ["-h", "--help"] },
   { key := .version, names := ["--version"] },
   { key := .verbose, names := ["-v", "--verbose"] }]

/-- The switches of both commands. -/
def commonSwitches : List (Switch Key) :=
  [{ key := .help, names := ["-h", "--help"] },
   { key := .config, names := ["--config"], takesValue := true },
   { key := .indentSize, names := ["--indent-size"], takesValue := true },
   { key := .noComments, names := ["--no-comments"] },
   { key := .voidElements, names := ["--void-elements"] },
   { key := .extension, names := ["--ext"], takesValue := true },
   { key := .diff, names := ["--diff"] }]

def Verb.switches : Verb → List (Switch Key)
  | .preview => commonSwitches
  | .convert => commonSwitches ++
      [{ key := .outputDirectory, names := ["--output-dir"], takesValue := true },
       { key := .noBackup, names := ["--no-backup"] },
       { key := .deleteSource, names := ["--delete-original"] },
       { key := .dryRun, names := ["--dry-run"] },
       { key := .yes, names := ["-y", "--yes"] },
       { key := .force, names := ["--force"] }]

/-- The arguments of a command. -/
structure Arguments where
  path : String
  config : Option String := none
  indentSize : Option Int := none
  noComments : Bool := false
  voidElements : Bool := false
  extension : Option String := none
  diff : Bool := false
  outputDirectory : Option String := none
  noBackup : Bool := false
  deleteSource : Bool := false
  dryRun : Bool := false
  yes : Bool := false
  force : Bool := false
  deriving DecidableEq, Repr

/-- A command line that was read to its end. -/
structure Invocation where
  verbose : Bool := false
  command : Option (Verb × Arguments) := none
  deriving DecidableEq, Repr

/-- The effect of a switch. Of two values of one switch the last is kept. -/
def Arguments.apply (verb : Verb) (arguments : Arguments) (switch : Switch Key) (value : String) :
    Except Stop Arguments :=
  match switch.key with
  | .help => .error (.help (.about verb))
  | .config => .ok { arguments with config := some value }
  | .indentSize =>
      match Text.integer? value with
      | some n => .ok { arguments with indentSize := some n }
      | none => .error (.usage (.notAnInteger switch.title value))
  | .noComments => .ok { arguments with noComments := true }
  | .voidElements => .ok { arguments with voidElements := true }
  | .extension => .ok { arguments with extension := some value }
  | .diff => .ok { arguments with diff := true }
  | .outputDirectory => .ok { arguments with outputDirectory := some value }
  | .noBackup => .ok { arguments with noBackup := true }
  | .deleteSource => .ok { arguments with deleteSource := true }
  | .dryRun => .ok { arguments with dryRun := true }
  | .yes => .ok { arguments with yes := true }
  | .force => .ok { arguments with force := true }

/-- The arguments read so far; the path may still be missing. -/
structure Intake where
  arguments : Arguments := { path := "" }
  hasPath : Bool := false
  leftover : List String := []

namespace Intake

def setPath (p : Intake) (path : String) : Intake :=
  { p with arguments := { p.arguments with path }, hasPath := true }

def leave (p : Intake) (word : String) : Intake :=
  { p with leftover := p.leftover ++ [word] }

def apply (verb : Verb) (p : Intake) (switch : Switch Key) (value : String) :
    Except Stop Intake := do
  return { p with arguments := ← p.arguments.apply verb switch value }

/-- Applies the switches of a word; a switch whose value is still to come is given back. -/
def applyUse (verb : Verb) (p : Intake) (use : Use Key) :
    Except Stop (Intake × Option (Switch Key)) := do
  let cluster ← (use.cluster verb.switches).mapError .usage
  let p ← cluster.given.foldlM (fun p (switch, value) => p.apply verb switch value) p
  return (p, cluster.pending)

/-- Reads the words of a command. The first argument is the path, with a separator that stands next
to it; whatever has no use is left over. -/
def read (verb : Verb) : Intake → List (String × Word Key) → Except Stop Intake
  | p, [] => .ok p
  | p, (word, .argument) :: (other, .separator) :: rest =>
      if p.hasPath then read verb (p.leave word) ((other, .separator) :: rest)
      else read verb (p.setPath word) rest
  | p, (word, .argument) :: rest => read verb (if p.hasPath then p.leave word else p.setPath word) rest
  | p, (word, .separator) :: (path, .argument) :: rest =>
      if p.hasPath then read verb (p.leave word) ((path, .argument) :: rest)
      else read verb (p.setPath path) rest
  | p, (word, .separator) :: rest => read verb (p.leave word) rest
  | p, (word, .unknownSwitch) :: rest => read verb (p.leave word) rest
  | p, (_, .switch use) :: rest =>
      match p.applyUse verb use with
      | .error stop => .error stop
      | .ok (p, none) => read verb p rest
      | .ok (p, some switch) =>
          match rest with
          | (value, .argument) :: rest =>
              match p.apply verb switch value with
              | .error stop => .error stop
              | .ok p => read verb p rest
          | _ => .error (.usage (.missingValue switch.title))

end Intake

/-- The arguments of a command, and the words that are left over. -/
def readArguments (verb : Verb) (words : List String) : Except Stop (Arguments × List String) := do
  let words ← (readWords verb.switches words).mapError .usage
  let p ← Intake.read verb {} words
  if p.hasPath then return (p.arguments, p.leftover) else throw (.usage .missingPath)

/-- A command and its words, which are all that follow. -/
def readCommand (name : String) (words : List String) :
    Except Stop ((Verb × Arguments) × List String) := do
  match Verb.ofName? name with
  | none => throw (.usage (.unknownCommand name (Verb.all.map Verb.name)))
  | some verb =>
      let (arguments, leftover) ← readArguments verb words
      return ((verb, arguments), leftover)

/-- The effect of a general switch. -/
def applyGeneral (invocation : Invocation) (switch : Switch GeneralKey) : Except Stop Invocation :=
  match switch.key with
  | .help => .error (.help .general)
  | .version => .error .version
  | .verbose => .ok { invocation with verbose := true }

/-- Reads general switches up to the command. The first argument is the name of the command, and so
is a separator before an argument. -/
def readGeneral (invocation : Invocation) (leftover : List String) :
    List (String × Word GeneralKey) → Except Stop (Invocation × List String)
  | [] => .ok (invocation, leftover)
  | (word, .unknownSwitch) :: rest => readGeneral invocation (leftover ++ [word]) rest
  | (word, .argument) :: rest => do
      let (command, more) ← readCommand word (rest.map (·.1))
      return ({ invocation with command := some command }, leftover ++ more)
  | [(word, .separator)] => .ok (invocation, leftover ++ [word])
  | (word, .separator) :: rest => do
      let (command, more) ← readCommand word (rest.map (·.1))
      return ({ invocation with command := some command }, leftover ++ more)
  | (_, .switch use) :: rest =>
      match (use.cluster generalSwitches).mapError .usage with
      | .error stop => .error stop
      | .ok cluster =>
          match cluster.given.foldlM (fun i (switch, _) => applyGeneral i switch) invocation with
          | .error stop => .error stop
          | .ok invocation => readGeneral invocation leftover rest

/-- Reads a command line. No word may be left over. -/
def readInvocation (words : List String) : Except Stop Invocation := do
  let words ← (readWords generalSwitches words).mapError .usage
  let (invocation, leftover) ← readGeneral {} [] words
  if leftover.isEmpty then return invocation else throw (.usage (.unrecognized leftover))

end SlimTemplate.Command
