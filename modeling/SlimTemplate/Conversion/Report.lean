import SlimTemplate.Files.Failure

/-!
Reports: what became of one source.
-/

namespace SlimTemplate

inductive Status where
  | preview
  | converted
  | unchanged
  | invalidOutput
  | validationError
  | readError
  | writeError
  | engineError
  deriving DecidableEq, Repr

namespace Status

def name : Status → String
  | preview => "PREVIEW"
  | converted => "CONVERTED"
  | unchanged => "UNCHANGED"
  | invalidOutput => "INVALID_OUTPUT"
  | validationError => "VALIDATION_ERROR"
  | readError => "READ_ERROR"
  | writeError => "WRITE_ERROR"
  | engineError => "ENGINE_ERROR"

def isSuccess : Status → Bool
  | preview | converted | unchanged => true
  | _ => false

end Status

/-- The report on one source. The output path is known only once the source is converted. -/
structure Report where
  filePath : String
  status : Status
  error : Option String := none
  outputPath : Option String := none
  written : Bool := false
  backup : Option String := none
  deleted : Bool := false
  output : Option String := none
  diagnostics : List String := []
  faults : List String := []
  deriving DecidableEq, Repr

def Report.success (report : Report) : Bool :=
  report.status.isSuccess

/-- Why a report is one of failure: its error, or else its status. -/
def Report.failure? (report : Report) : Option String :=
  if report.success then none
  else match report.error with
    | none | some "" => some report.status.name
    | some error => some error

/-- The report on a source that was not converted. -/
def Report.failed (filePath : String) (status : Status) (error : String) : Report where
  filePath := filePath
  status := status
  error := some error

/-- The counts of a run. -/
structure Summary where
  total : Nat
  successful : Nat
  failed : Nat
  written : Nat
  backups : Nat
  deleted : Nat
  issues : List (IssueType × Nat)
  deriving DecidableEq, Repr

def Summary.ofReports (reports : List Report) (issues : List Issue) : Summary :=
  let successful := reports.countP Report.success
  { total := reports.length
    successful
    failed := reports.length - successful
    written := reports.countP (·.written)
    backups := reports.countP (·.backup.isSome)
    deleted := reports.countP (·.deleted)
    issues := Issue.countByType issues }

/-- The nearest whole number to `n / d`; halves go to the even neighbour. -/
def roundDiv (n d : Nat) : Nat :=
  let q := n / d
  let r := n % d
  if 2 * r < d then q else if d < 2 * r then q + 1 else q + q % 2

/-- The share of sources that were successful, with six decimals; zero if there were none. -/
def Summary.successRate (summary : Summary) : String :=
  let millionths := roundDiv (summary.successful * 1000000) summary.total
  let decimals := (Nat.toDigits 10 (millionths % 1000000))
  toString (millionths / 1000000) ++ "." ++
    String.ofList (List.replicate (6 - decimals.length) '0' ++ decimals)

end SlimTemplate
