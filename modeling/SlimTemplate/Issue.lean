import SlimTemplate.Path

/-!
Issues: the reportable problems of a run, each with its type, and their count by type.
-/

namespace SlimTemplate

inductive IssueType where
  | fileRead
  | fileWrite
  | parse
  | conversion
  | validation
  | configuration
  deriving DecidableEq, Repr

namespace IssueType

def name : IssueType → String
  | fileRead => "FILE_READ_ERROR"
  | fileWrite => "FILE_WRITE_ERROR"
  | parse => "PARSE_ERROR"
  | conversion => "CONVERSION_ERROR"
  | validation => "VALIDATION_ERROR"
  | configuration => "CONFIGURATION_ERROR"

def all : List IssueType :=
  [fileRead, fileWrite, parse, conversion, validation, configuration]

def ofName? (s : String) : Option IssueType :=
  all.find? (·.name == s)

end IssueType

structure Issue where
  type : IssueType
  message : String
  filePath : Option String := none
  lineNumber : Option Int := none
  details : Option String := none
  deriving DecidableEq, Repr

namespace Issue

/-- The message with the name of the file before it and the line after it, where they are known. An
empty path and the line zero count as unknown. -/
def format (issue : Issue) : String :=
  (match issue.filePath with
    | none | some "" => issue.message
    | some path => (Path.ofText path).name ++ ": " ++ issue.message) ++
  match issue.lineNumber with
  | none | some 0 => ""
  | some n => " (line " ++ toString n ++ ")"

/-- The remarks on the lines of a file. -/
def ofDiagnostics (diagnostics : List String) (filePath : Option String) : List Issue :=
  diagnostics.map fun message => { type := .parse, message, filePath }

/-- An unforeseen failure of the given kind, met in some part of the work. -/
def unexpected (kind text context : String) (filePath : Option String) : Issue where
  type := .conversion
  message := "Unexpected error in " ++ context ++ ": " ++ text
  filePath := filePath
  details := some ((if text = "" then kind else kind ++ ": " ++ text) ++ "\n")

/-- One more issue of a type in a count that is ordered by first occurrence. -/
def tally (type : IssueType) : List (IssueType × Nat) → List (IssueType × Nat)
  | [] => [(type, 1)]
  | (other, n) :: rest =>
      if other = type then (other, n + 1) :: rest else (other, n) :: tally type rest

/-- The number of issues of each type, in the order in which the types first occur. -/
def countByType (issues : List Issue) : List (IssueType × Nat) :=
  issues.foldl (fun counts issue => tally issue.type counts) []

end Issue
end SlimTemplate
