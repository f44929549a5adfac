import SlimTemplate.Conversion.File

/-!
Conversion of many files, one after another. The failure of one never stops the others, and no two
sources of one run are written to the same place. A listener may be told of each report.
-/

namespace SlimTemplate

/-- One source of a run: its report and what was noted while it was converted. -/
structure Step where
  source : Path
  report : Report
  journal : Journal
  deriving DecidableEq, Repr

/-- A run: the tree it leaves, its steps in order, the reports and notes that belong to no source,
and the fault that ended it, if one did. -/
structure Batch where
  tree : FileTree
  steps : List Step := []
  otherReports : List Report := []
  otherJournal : Journal := []
  fault : Option Fault := none

namespace Batch

def reports (batch : Batch) : List Report :=
  batch.otherReports ++ batch.steps.map (·.report)

def journal (batch : Batch) : Journal :=
  batch.otherJournal ++ batch.steps.flatMap (·.journal)

end Batch

/-- The outputs of a run so far: where each is, and the source it is produced from. -/
abbrev Produced := List (Path × Path)

/-- Where the output of a source is, without links. -/
def outputPlace (config : Config) (tree : FileTree) (source : Path) (root : Option Path) :
    Except Fault Path :=
  match Files.outputPath source config.outputDirectory root with
  | .error e => .error (.emptyName e)
  | .ok output =>
      match tree.resolve output with
      | .error e => .error (.resolve e)
      | .ok place => .ok place

/-- Converts one source of a run; a fault is recorded and reported. -/
def convertInBatch (config : Config) (mode : Mode) (source : Path) (root : Option Path)
    (tree : FileTree) : Step × FileTree :=
  match (convertFile config mode source root).start tree with
  | (.ok report, world) => (⟨source, report, world.journal⟩, world.tree)
  | (.error fault, world) =>
      let issue :=
        Issue.unexpected fault.kind fault.message "batch conversion" (some source.text)
      let note := Record.note .error .engine
        ("Critical error in batch loop for " ++ source.text ++ ": " ++ fault.message)
      (⟨source, .failed source.text .engineError issue.message,
          world.journal ++ [note, .issue issue]⟩, world.tree)

/-- The turn of a source: the files before, the step that is recorded, and the files after. -/
structure Turn where
  before : FileTree
  step : Step
  after : FileTree

/-- A source is refused because its output was produced before. -/
def refusal (place earlier source : Path) : Step :=
  let failure : Failure := .alreadyProduced place earlier source
  ⟨source, .failed source.text .writeError failure.message, [.issue failure.toIssue]⟩

/-- The turn of a source whose output has a place, and the outputs after it. -/
def takeTurn (config : Config) (mode : Mode) (root : Option Path) (tree : FileTree)
    (produced : Produced) (source place : Path) : Turn × Produced :=
  match produced.lookup place with
  | some earlier => (⟨tree, refusal place earlier source, tree⟩, produced)
  | none =>
      let (step, after) := convertInBatch config mode source root tree
      (⟨tree, step, after⟩, produced ++ [(place, source)])

/-- What a listener is told: how many sources are done, of how many, and the report on the last. -/
structure Notice where
  processed : Nat
  total : Nat
  source : Path
  report : Report
  deriving DecidableEq, Repr

/-- One who is told of each report as soon as it is made, and keeps what it has heard. A fault of
the listener ends the run. -/
abbrev Listener (σ : Type) := Notice → σ → σ × Except Fault Unit

/-- Nobody listens. -/
def Listener.silent : Listener Unit :=
  fun _ heard => (heard, .ok ())

/-- Converts sources in order and tells of each, given the outputs of earlier ones, their number,
and what was heard of them. -/
def convertEach (config : Config) (mode : Mode) (root : Option Path)
    (tell : Nat → Path → Report → σ → σ × Except Fault Unit) (tree : FileTree)
    (produced : Produced) (done : Nat) (heard : σ) : List Path → Batch × σ
  | [] => ({ tree }, heard)
  | source :: rest =>
      match outputPlace config tree source root with
      | .error fault => ({ tree, fault := some fault }, heard)
      | .ok place =>
          let (turn, produced) := takeTurn config mode root tree produced source place
          match tell (done + 1) source turn.step.report heard with
          | (heard, .error fault) =>
              ({ tree := turn.after, steps := [turn.step], fault := some fault }, heard)
          | (heard, .ok ()) =>
              let (batch, heard) :=
                convertEach config mode root tell turn.after produced (done + 1) heard rest
              ({ batch with steps := turn.step :: batch.steps }, heard)

def convertFilesTelling (listener : Listener σ) (heard : σ) (config : Config) (mode : Mode)
    (sources : List Path) (root : Option Path) (tree : FileTree) : Batch × σ :=
  let tell (processed : Nat) (source : Path) (report : Report) : σ → σ × Except Fault Unit :=
    listener ⟨processed, sources.length, source, report⟩
  convertEach config mode root tell tree [] 0 heard sources

def convertFiles (config : Config) (mode : Mode) (sources : List Path) (root : Option Path)
    (tree : FileTree) : Batch :=
  (convertFilesTelling .silent () config mode sources root tree).1

/-- Converts all sources below a directory, which is reported under the path it was given by. -/
def convertDirectoryTelling (listener : Listener σ) (heard : σ) (config : Config) (mode : Mode)
    (directory : String) (tree : FileTree) : Batch × σ :=
  let root := Path.ofText directory
  match Files.findSources tree root config.extension with
  | .error (.fault fault) => ({ tree, fault := some fault }, heard)
  | .error (.failure failure) =>
      ({ tree
         otherReports := [.failed directory .readError failure.message]
         otherJournal := [.issue failure.toIssue] }, heard)
  | .ok sources => convertFilesTelling listener heard config mode sources (some root) tree

def convertDirectory (config : Config) (mode : Mode) (directory : String) (tree : FileTree) :
    Batch :=
  (convertDirectoryTelling .silent () config mode directory tree).1

end SlimTemplate
