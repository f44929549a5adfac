import SlimTemplate.Conversion.Basic
import SlimTemplate.Conversion.Report
import SlimTemplate.Files.Reading
import SlimTemplate.Files.Writing

/-!
Conversion of one file: it is read, converted, checked and written. Failures become reports, and
each leaves an issue in the journal; faults end the conversion of the file.
-/

namespace SlimTemplate

/-- How sources are to be treated in a run. -/
structure Mode where
  /-- Nothing is written. -/
  dryRun : Bool := false
  /-- Output is written even if it is not balanced. -/
  force : Bool := false
  deriving DecidableEq, Repr

namespace ConvertFile

/-- Records a failure and reports it. -/
def refuse (source : Path) (status : Status) (failure : Failure) : Action Fault Report := do
  Action.record (.issue failure.toIssue)
  return .failed source.text status failure.message

/-- Records a fault met in some part of the work, and reports it. -/
def excuse (source : Path) (context : String) (fault : Fault) : Action Fault Report := do
  let issue := Issue.unexpected fault.kind fault.message context (some source.text)
  Action.record (.issue issue)
  return .failed source.text .engineError issue.message

/-- The report on a converted source, before anything is written. -/
def draft (source output : Path) (mode : Mode) (conversion : Conversion) : Report where
  filePath := source.text
  status := if mode.dryRun then .preview else .converted
  outputPath := some output.text
  output := some conversion.output
  diagnostics := conversion.document.diagnostics.map (·.message)
  faults := conversion.faults.map (·.message)

/-- What is noted of a conversion: the faults of the output, and the remarks on the source. -/
def conversionJournal (source : Path) (conversion : Conversion) : Journal :=
  let remarks := conversion.document.diagnostics.map (·.message)
  conversion.faults.map (fun fault => .note .debug .validator ("Validation: " ++ fault.message)) ++
    (Issue.ofDiagnostics remarks (some source.text)).map .issue

/-- Whether the output file already holds the output. A file that cannot be read does not. -/
def isUpToDate (config : Config) (output : Path) (text : String) : Action Fault Bool := do
  if !(← Action.probe FileTree.isFile output) || config.deleteSource then return false
  match Files.readText (← Action.tree) output with
  | .ok existing => return existing == text
  | .error cause =>
      Action.note .debug .engine
        ("Cannot compare with existing " ++ output.text ++ ", rewriting: " ++ cause.message)
      return false

/-- Writes the output of a source and completes its report. -/
def write (config : Config) (source : Path) (root : Option Path) (text : String)
    (report : Report) : Action Fault Report := do
  let result ← Action.attempt (Files.writeOutput source text config.createBackup
    config.deleteSource config.outputDirectory root)
  match result with
  | .error failure =>
      Action.record (.issue failure.toIssue)
      return { report with status := .writeError, error := some failure.message }
  | .ok written =>
      return { report with
        written := true
        outputPath := some written.output.text
        backup := written.backup.map Path.text
        deleted := written.deleted }

/-- Decides what happens to a converted source: unbalanced output is refused unless it is forced, a
dry run stops here, and output that is in place already is not written again. -/
def finish (config : Config) (mode : Mode) (source : Path) (root : Option Path)
    (conversion : Conversion) : Action Fault Report := do
  let output ← Action.orThrow .emptyName (Files.outputPath source config.outputDirectory root)
  let report := draft source output mode conversion
  if let fault :: _ := conversion.faults then
    Action.record (.issue {
      type := .validation
      message := "Generated ERB is unbalanced: " ++ fault.message
      filePath := some source.text })
    if !mode.force then
      return { report with status := .invalidOutput, error := some fault.message }
  if mode.dryRun then return report
  if ← isUpToDate config output conversion.output then
    return { report with status := .unchanged }
  write config source root conversion.output report

end ConvertFile

open ConvertFile in
/-- Converts a file that was found below `root`, if that is given. -/
def convertFile (config : Config) (mode : Mode) (source : Path) (root : Option Path) :
    Action Fault Report := do
  if !Files.hasExtension source.name config.extension then
    return ← refuse source .validationError (.notSource config.extension source)
  if !(← Action.probe FileTree.isFile source) then
    return ← refuse source .readError (.missing source)
  match Files.readSource (← Action.tree) source with
  | .error (.failure failure) => refuse source .readError failure
  | .error (.fault fault) =>
      Action.note .error .engine ("Error processing " ++ source.text ++ ": " ++ fault.message)
      excuse source "conversion" fault
  | .ok text =>
      match convert config.options text with
      | .error overflow =>
          Action.note .error .engine ("Error processing " ++ source.text ++ ": " ++ overflow.message)
          excuse source "conversion" (.overflow overflow)
      | .ok conversion =>
          Action.recordAll (conversionJournal source conversion)
          finish config mode source root conversion

end SlimTemplate
