import SlimTemplate.Command.Arguments
import SlimTemplate.Config.File
import SlimTemplate.Conversion.Batch
import SlimTemplate.Screen.Display
import SlimTemplate.Screen.Progress

/-!
Running a command line on a tree: what is shown, how it ends, and the tree it leaves. Answers to
questions are given beforehand; an answer that is missing ends the run. What is shown is taken as it
is, so laying it out cannot fail. Settings whose texts are no strings end a run before it starts.
-/

namespace SlimTemplate.Command

open Screen (Event)

/-- How a run ends. -/
inductive Ending where
  | exit (code : Nat)
  | help (page : Page) (code : Nat)
  | version
  | usage (e : UsageError)
  | fault (fault : Fault)
  deriving Repr

def Ending.ofStop : Stop → Ending
  | .help page => .help page 0
  | .version => .version
  | .usage e => .usage e

/-- The exit code of a run; a fault has none. -/
def Ending.code? : Ending → Option Nat
  | .exit code | .help _ code => some code
  | .version => some 0
  | .usage _ => some 2
  | .fault _ => none

/-- What a run leaves behind and shows. -/
structure Outcome where
  tree : FileTree
  memory : Yaml.Memory
  events : List Event := []
  ending : Ending

/-- An answer to a question: a text, or nothing if the run was broken off. -/
abbrev Answer := Option String

/-- What is written when the version is asked for. -/
def versionText : String :=
  "slim2erb v" ++ Screen.version ++ "\n"

/-! Preparation -/

/-- The settings that the command line overrides. -/
def Arguments.overrides (arguments : Arguments) : List (Setting × Value) :=
  let text (s : Option String) : Value := s.elim .null .text
  let flag (given value : Bool) : Value := if given then .bool value else .null
  [(.indentSize, arguments.indentSize.elim .null .int),
   (.emitComments, flag arguments.noComments false),
   (.voidElements, flag arguments.voidElements true),
   (.extension, text arguments.extension),
   (.outputDirectory, text arguments.outputDirectory),
   (.createBackup, flag arguments.noBackup false),
   (.deleteSource, flag arguments.deleteSource true)]

/-- The configuration file to use: the one that is named, or the nearest one above the path. -/
def configPath (tree : FileTree) (arguments : Arguments) : Except Trouble (Option Path) :=
  match arguments.config with
  | none | some "" => (Config.find tree (.ofText arguments.path)).mapError .fault
  | some name =>
      match tree.isPresent (.ofText name) with
      | .error e => .error (.fault (.os e))
      | .ok true => .ok (some (.ofText name))
      | .ok false => .error (.failure (.configMissing (.ofText name)))

/-- The settings of a run. -/
def loadSettings (tree : FileTree) (memory : Yaml.Memory) (arguments : Arguments) :
    Config.Loaded Yaml.Memory :=
  match configPath tree arguments with
  | .error trouble => { outcome := .error trouble, memory }
  | .ok path =>
      let loaded := Config.load Yaml.read tree memory path
      match loaded.outcome with
      | .error _ => loaded
      | .ok settings =>
          let overridden := Config.accept none (settings.override arguments.overrides)
          { overridden with
            journal := loaded.journal ++ overridden.journal
            memory := loaded.memory }

/-- The sources at a path: the file itself, or all below a directory. -/
def targets (tree : FileTree) (path : Path) (extension : String) :
    Except Trouble (List Path) :=
  match tree.isFile path with
  | .error e => .error (.fault (.os e))
  | .ok true => .ok [path]
  | .ok false => Files.findSources tree path extension

/-- The settings of a run, the extension that they give, and the sources that have it. -/
def gather (tree : FileTree) (path : Path) (loaded : Except Trouble Settings) :
    Except Trouble (Settings × String × List Path) := do
  let settings ← loaded
  let extension ← settings.extension.characters.mapError (.fault ∘ .encode)
  return (settings, extension, ← targets tree path extension)

/-- What is known before the work starts, or how the run ends without it. -/
structure Preparation where
  events : List Event := []
  memory : Yaml.Memory
  outcome : Except Ending (Settings × List Path)

/-- Ends a run: a failure is shown, a fault is not. -/
def Preparation.stop (events : List Event) (memory : Yaml.Memory) : Trouble → Preparation
  | .fault fault => { events, memory, outcome := .error (.fault fault) }
  | .failure failure =>
      let text := "[bold red]" ++ failure.type.name ++ ":[/bold red] " ++ failure.message
      { events := events ++ [.print text], memory, outcome := .error (.exit 2) }

def prepare (tree : FileTree) (memory : Yaml.Memory) (threshold : Level) (arguments : Arguments) :
    Preparation :=
  let path := Path.ofText arguments.path
  match tree.isPresent path with
  | .error e => .stop [] memory (.fault (.os e))
  | .ok false =>
      let text := "[bold red]Error:[/bold red] Path '" ++ arguments.path ++ "' not found."
      { events := [.print text], memory, outcome := .error (.exit 2) }
  | .ok true =>
      let loaded := loadSettings tree memory arguments
      let memory := loaded.memory
      let events := Screen.logged threshold loaded.journal
      match gather tree path loaded.outcome with
      | .error trouble => .stop events memory trouble
      | .ok (_, extension, []) =>
          let text := "\n[bold yellow]No " ++ extension ++ " files found.[/bold yellow]"
          { events := events ++ [.print text], memory, outcome := .error (.exit 2) }
      | .ok (settings, _, targets) => { events, memory, outcome := .ok (settings, targets) }

/-- The engine of a run is made with its settings, and works with them. -/
def engineConfig (settings : Settings) : Except Fault Config := do
  let engine ← (Engine.ofDraft settings.toDraft).mapError .settings
  engine.config.mapError .encode

/-- The directory that is scanned, if the path is one. -/
def scanRoot (tree : FileTree) (arguments : Arguments) : Except Fault (Option Path) :=
  let path := Path.ofText arguments.path
  match tree.isDirectory path with
  | .error e => .error (.os e)
  | .ok isDirectory => .ok (if isDirectory then some path else none)

/-- The text that is in place of the output of a source now; empty if it cannot be read. -/
def existingOutput (tree : FileTree) (config : Config) (root : Option Path) (source : Path) :
    Except Fault String :=
  match Files.outputPath source config.outputDirectory root with
  | .error e => .error (.emptyName e)
  | .ok output =>
      match tree.isFile output with
      | .error e => .error (.os e)
      | .ok false => .ok ""
      | .ok true => .ok ((Files.readText tree output).toOption.getD "")

/-! Converting -/

/-- Whether to go on, and what is asked to know it. Only work on several files is asked about. -/
def confirm (arguments : Arguments) (count : Nat) (answers : List Answer) :
    List Event × Except Ending Bool :=
  if arguments.dryRun || arguments.yes || count ≤ 1 then ([], .ok true)
  else
    let prompt := Event.prompt
      ("\n[bold yellow]Convert " ++ toString count ++ " files to ERB? (y/N): [/bold yellow]")
    match answers with
    | [] => ([prompt], .error (.fault .noAnswer))
    | none :: _ =>
        ([prompt, .print "\n[bold red]Terminated by user.[/bold red]"], .error (.exit 1))
    | some answer :: _ => ([prompt], .ok (Text.lower answer == "y"))

/-- The progress of a run, and what was shown of each file that is done. -/
structure Display where
  progress : Screen.Progress
  shown : List (List Event) := []

/-- Shows a file that is done: its changes if they are known, and its failure. -/
def showFile (existing : Option (List (Path × String))) : Listener Display := fun notice display =>
  let changes :=
    match existing, notice.report.output with
    | some existing, some output =>
        [Screen.changes ((existing.lookup notice.source).getD "") output notice.source.name]
    | _, _ => []
  let (progress, shown) :=
    display.progress.fileDone .plain notice.source notice.report.failure?
  ({ progress, shown := display.shown ++ [changes ++ shown.toOption.getD []] },
    shown.map fun _ => ())

/-- Each file is shown after what was noted while it was converted. -/
def stepsEvents (threshold : Level) (steps : List Step) (shown : List (List Event)) : List Event :=
  (List.zipWith (fun step events => Screen.logged threshold step.journal ++ events)
    steps shown).flatten

/-- The outputs that are in place before a run, if changes are to be shown. -/
def existingOutputs (tree : FileTree) (config : Config) (arguments : Arguments)
    (root : Option Path) (targets : List Path) : Except Fault (Option (List (Path × String))) :=
  if arguments.diff then
    some <$> targets.mapM fun source => return (source, ← existingOutput tree config root source)
  else .ok none

/-- What is shown at the end of a run. -/
def closingEvents (arguments : Arguments) (reports : List Report) (issues : List Issue) :
    List Event :=
  let summary := Summary.ofReports reports issues
  [Screen.reports (reports.map .ofReport)] ++ Screen.issues issues ++
    Screen.summary (.ofSummary summary) arguments.dryRun

/-- Converts the targets of a confirmed run. -/
def convertTargets (tree : FileTree) (memory : Yaml.Memory) (threshold : Level)
    (arguments : Arguments) (settings : Settings) (targets : List Path) : Outcome :=
  let warnings := Screen.logged threshold (Config.warnings settings)
  let known := do
    let config ← engineConfig settings
    let root ← scanRoot tree arguments
    return (config, root, ← existingOutputs tree config arguments root targets)
  match known with
  | .error fault => { tree, memory, events := warnings, ending := .fault fault }
  | .ok (config, root, existing) =>
      let mode : Mode := { dryRun := arguments.dryRun, force := arguments.force }
      let progress := Screen.Progress.start targets.length "Converting Slim files..."
      let (batch, display) :=
        convertFilesTelling (showFile existing) { progress } config mode targets root tree
      let events := warnings ++ stepsEvents threshold batch.steps display.shown
      match batch.fault with
      | some fault => { tree := batch.tree, memory, events, ending := .fault fault }
      | none =>
          let failed := batch.reports.any (!·.success)
          { tree := batch.tree
            memory
            events := events ++ closingEvents arguments batch.reports batch.journal.issues
            ending := .exit (if failed then 1 else 0) }

def runConvert (tree : FileTree) (memory : Yaml.Memory) (threshold : Level) (arguments : Arguments)
    (answers : List Answer) : Outcome :=
  let preparation := prepare tree memory threshold arguments
  let memory := preparation.memory
  match preparation.outcome with
  | .error ending => { tree, memory, events := preparation.events, ending }
  | .ok (settings, targets) =>
      match confirm arguments targets.length answers with
      | (asked, .error ending) => { tree, memory, events := preparation.events ++ asked, ending }
      | (asked, .ok false) =>
          let cancelled := Event.print "[bold red]Operation cancelled by user.[/bold red]"
          { tree, memory, events := preparation.events ++ asked ++ [cancelled], ending := .exit 0 }
      | (asked, .ok true) =>
          let outcome := convertTargets tree memory threshold arguments settings targets
          { outcome with events := preparation.events ++ asked ++ outcome.events }

/-! Previewing -/

/-- What is shown of a converted source: its changes or its output, or why there is none. -/
def previewEvent (tree : FileTree) (arguments : Arguments) (config : Config) (root : Option Path)
    (source : Path) (report : Report) : Except Fault Event := do
  match report.output with
  | none =>
      return .print ("[bold red]Error in " ++ source.name ++ ":[/bold red] " ++
        report.error.getD "None")
  | some output =>
      if arguments.diff then
        return Screen.changes (← existingOutput tree config root source) output source.name
      else
        return Screen.preview output source.name

/-- A preview so far: the tree, what was shown, the issues, and how many sources failed. -/
structure Viewing where
  tree : FileTree
  events : List Event := []
  issues : List Issue := []
  failed : Nat := 0

/-- Previews sources in order; a fault ends the preview. -/
def viewEach (threshold : Level) (arguments : Arguments) (config : Config) (root : Option Path) :
    Viewing → List Path → Viewing × Option Fault
  | viewing, [] => (viewing, none)
  | viewing, source :: rest =>
      let mode : Mode := { dryRun := true, force := true }
      let (result, world) := (convertFile config mode source root).start viewing.tree
      let viewing := { viewing with
        tree := world.tree
        events := viewing.events ++ Screen.logged threshold world.journal
        issues := viewing.issues ++ world.journal.issues }
      match result with
      | .error fault => (viewing, some fault)
      | .ok report =>
          match previewEvent viewing.tree arguments config root source report with
          | .error fault => (viewing, some fault)
          | .ok event =>
              viewEach threshold arguments config root
                { viewing with
                  events := viewing.events ++ [event]
                  failed := viewing.failed + if report.output.isNone then 1 else 0 } rest

def runPreview (tree : FileTree) (memory : Yaml.Memory) (threshold : Level)
    (arguments : Arguments) : Outcome :=
  let preparation := prepare tree memory threshold arguments
  let memory := preparation.memory
  match preparation.outcome with
  | .error ending => { tree, memory, events := preparation.events, ending }
  | .ok (settings, targets) =>
      let events := preparation.events ++ Screen.logged threshold (Config.warnings settings)
      let known := do
        return (← engineConfig settings, ← scanRoot tree arguments)
      match known with
      | .error fault => { tree, memory, events, ending := .fault fault }
      | .ok (config, root) =>
          match viewEach threshold arguments config root { tree, events } targets with
          | (viewing, some fault) =>
              { tree := viewing.tree, memory, events := viewing.events, ending := .fault fault }
          | (viewing, none) =>
              { tree := viewing.tree
                memory
                events := viewing.events ++ Screen.issues viewing.issues
                ending := .exit (if viewing.failed = 0 then 0 else 1) }

/-! Running -/

def runVerb (verb : Verb) (tree : FileTree) (memory : Yaml.Memory) (threshold : Level)
    (arguments : Arguments) (answers : List Answer) : Outcome :=
  match verb with
  | .convert =>
      let outcome := runConvert tree memory threshold arguments answers
      { outcome with events := Screen.header "Convert" :: outcome.events }
  | .preview =>
      let outcome := runPreview tree memory threshold arguments
      { outcome with events := Screen.header "Preview" :: outcome.events }

/-- Runs a command line. Without words it shows what there is to know; a command has to follow. -/
def run (words : List String) (answers : List Answer) (tree : FileTree)
    (memory : Yaml.Memory := {}) : Outcome :=
  if words.isEmpty then
    { tree, memory, events := [Screen.header "Slim to ERB Converter"], ending := .help .general 0 }
  else
    match readInvocation words with
    | .error stop => { tree, memory, ending := .ofStop stop }
    | .ok invocation =>
        match invocation.command with
        | none => { tree, memory, ending := .help .general 2 }
        | some (verb, arguments) =>
            let threshold : Level := if invocation.verbose then .debug else .warning
            runVerb verb tree memory threshold arguments answers

end SlimTemplate.Command
