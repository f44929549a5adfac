import SlimTemplate.Issue

/-!
The journal of a run: the issues and the notes on the work, in the order in which they arise.
-/

namespace SlimTemplate

inductive Level where
  | debug
  | info
  | warning
  | error
  deriving DecidableEq, Repr

namespace Level

def name : Level → String
  | debug => "DEBUG"
  | info => "INFO"
  | warning => "WARNING"
  | error => "ERROR"

def rank : Level → Nat
  | debug => 0
  | info => 1
  | warning => 2
  | error => 3

end Level

/-- The part of the program that makes a note. -/
inductive Origin where
  | validator
  | issues
  | config
  | files
  | engine
  deriving DecidableEq, Repr

def Origin.name : Origin → String
  | .validator => "slim2erb.validator"
  | .issues => "slim2erb.errors"
  | .config => "slim2erb.config"
  | .files => "slim2erb.files"
  | .engine => "slim2erb.engine"

inductive Record where
  | issue (issue : Issue)
  | note (level : Level) (origin : Origin) (text : String)
  deriving DecidableEq, Repr

namespace Record

def issue? : Record → Option Issue
  | .issue i => some i
  | .note .. => none

/-- A record as a note; an issue is noted as an error. -/
def asNote : Record → Level × Origin × String
  | .issue i => (.error, .issues, i.type.name ++ ": " ++ i.format)
  | .note level origin text => (level, origin, text)

end Record

abbrev Journal := List Record

/-- The issues of a journal, in order. -/
def Journal.issues (journal : Journal) : List Issue :=
  journal.filterMap Record.issue?

end SlimTemplate
