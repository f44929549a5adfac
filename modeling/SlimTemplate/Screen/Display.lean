import SlimTemplate.Conversion.Report
import SlimTemplate.Diff.Unified
import SlimTemplate.Screen.Event
import SlimTemplate.Text.Lines

/-!
How outputs, differences, issues, reports and summaries are shown.
-/

namespace SlimTemplate.Screen

def version : String := "1.0.0"

def header (subtitle : String) : Event :=
  .panel (.text ("[bold cyan]Slim2ERB v" ++ version ++ "[/bold cyan]"))
    (some ("[bold white]" ++ subtitle ++ "[/bold white]")) "cyan"

def preview (output name : String) : Event :=
  .panel (.code output "html+erb") (some ("ERB Preview: " ++ name)) "cyan"

/-- What would change in an existing output. -/
def changes (existing output name : String) : Event :=
  let lines := Diff.unified ("existing/" ++ name) ("generated/" ++ name)
    (Text.displayLines existing) (Text.displayLines output)
  if lines.isEmpty then .print ("[dim]No changes for " ++ name ++ ".[/dim]")
  else .panel (.code ("\n".intercalate lines) "diff") (some ("Changes: " ++ name)) "green"

/-- A numbered table of issues; nothing if there are none. -/
def issues (issues : List Issue) : List Event :=
  if issues.isEmpty then []
  else
    [.table "Conversion Issues" ["#", "Type", "Message"]
      (issues.zipIdx.map fun (issue, n) => [toString (n + 1), issue.type.name, issue.format])]

/-- A line of the table of reports. What is not known has a default. -/
structure ReportLine where
  filePath : Option String := none
  outputPath : Option String := none
  status : String := "FAILED"
  success : Bool := false
  deriving DecidableEq, Repr

def ReportLine.ofReport (report : Report) : ReportLine where
  filePath := some report.filePath
  outputPath := report.outputPath
  status := report.status.name
  success := report.success

/-- The cells of a line; an empty output path is shown as a dash. -/
def ReportLine.cells (line : ReportLine) : List String :=
  let colour := if line.success then "green" else "red"
  [line.filePath.getD "None",
   match line.outputPath with
    | none | some "" => "-"
    | some path => path,
   "[" ++ colour ++ "]" ++ line.status ++ "[/" ++ colour ++ "]",
   if line.success then "✅" else "❌"]

def reports (lines : List ReportLine) : Event :=
  .table "Slim2ERB Execution Report" ["File Path", "Output", "Status", "Result"]
    (lines.map ReportLine.cells)

def dryRunNote : Event :=
  .print "\n[bold cyan]Dry Run Mode:[/bold cyan] No files were modified."

/-- The counts that are shown at the end of a run. -/
structure Totals where
  total : Int
  successful : Int
  failed : Int
  written : Int
  backups : Int
  issues : List (String × Int) := []
  deriving DecidableEq, Repr

def Totals.ofSummary (summary : Summary) : Totals where
  total := summary.total
  successful := summary.successful
  failed := summary.failed
  written := summary.written
  backups := summary.backups
  issues := summary.issues.map fun (type, n) => (type.name, (n : Int))

def issueCounts (counts : List (String × Int)) : String :=
  if counts.isEmpty then "none"
  else ", ".intercalate (counts.map fun (type, n) => type ++ ": " ++ toString n)

def summary (totals : Totals) (dryRun : Bool) : List Event :=
  let text := "\n".intercalate [
    "[bold white]Summary Report[/bold white]",
    "════════════════════════════════════════",
    "Total Files:      " ++ toString totals.total,
    "Converted:        [green]" ++ toString totals.successful ++ "[/green]",
    "Failed:           [red]" ++ toString totals.failed ++ "[/red]",
    "Written:          " ++ toString totals.written,
    "Backups Created:  " ++ toString totals.backups,
    "Issues:           " ++ issueCounts totals.issues]
  .panel (.text text) none "dim" :: if dryRun then [dryRunNote] else []

end SlimTemplate.Screen
