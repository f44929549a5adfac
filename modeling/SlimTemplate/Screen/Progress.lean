import SlimTemplate.Conversion.Batch
import SlimTemplate.Screen.Event

/-!
Progress of a run: how many files are done, how many failed, and what the bar says. Errors are shown
on a console, which reads the marks in a text. How it does that is left open: it is known only by
the texts that it does not take.
-/

namespace SlimTemplate.Screen

/-- Where texts are shown. A text whose marks cannot be read ends in a fault. -/
structure Console where
  fault? : String → Option Fault

/-- Takes every text as it is. -/
def Console.plain : Console :=
  ⟨fun _ => none⟩

/-- The bar: what it says and how far it is. -/
structure Bar where
  description : String
  completed : Int
  total : Int
  deriving DecidableEq, Repr

structure Progress where
  current : Nat := 0
  total : Int := 0
  errors : Nat := 0
  bar : Option Bar := none
  deriving DecidableEq, Repr

namespace Progress

/-- There is no bar to move before a run has started. -/
def noBar : Fault :=
  .screen "ProgressError" "None"

/-- Starts a run of `total` steps with a bar of its own. -/
def start (total : Int) (message : String := "Starting conversion...") : Progress where
  total := total
  bar := some ⟨message, 0, total⟩

/-- Moves the bar. Without one the counts have changed all the same. -/
def moveBar (p : Progress) (move : Bar → Bar) : Progress × Except Fault Unit :=
  match p.bar with
  | some bar => ({ p with bar := some (move bar) }, .ok ())
  | none => (p, .error noBar)

/-- One more file is done. -/
def step (p : Progress) (message : String) (file : Option Path) : Progress × Except Fault Unit :=
  let current := p.current + 1
  let label := file.elim message fun file => message ++ ": " ++ file.name
  let description := label ++ " (" ++ toString current ++ "/" ++ toString p.total ++ ")"
  moveBar { p with current } fun bar => { bar with description, completed := bar.completed + 1 }

def complete (p : Progress) (message : String := "Conversion complete") :
    Progress × Except Fault Unit :=
  moveBar p fun bar => { bar with description := message, completed := p.total }

def errorText (message : String) (file : Option Path) : String :=
  let place := file.elim "" fun file => " in " ++ file.name
  "[bold red]Error" ++ place ++ ":[/bold red] " ++ message

/-- One more error, which is shown. It counts even if the console does not take it. -/
def error (p : Progress) (console : Console) (message : String) (file : Option Path) :
    Progress × Except Fault Event :=
  let text := errorText message file
  ({ p with errors := p.errors + 1 }, (console.fault? text).elim (.ok (.print text)) .error)

/-- A file is done, and `failure` tells why it failed, if it did: what is shown of that. -/
def fileDone (p : Progress) (console : Console) (file : Path) (failure : Option String) :
    Progress × Except Fault (List Event) :=
  match failure with
  | none =>
      let (p, moved) := p.step "Converted" (some file)
      (p, moved.map fun _ => [])
  | some message =>
      match p.error console message (some file) with
      | (p, .error fault) => (p, .error fault)
      | (p, .ok event) =>
          let (p, moved) := p.step "Converted" (some file)
          (p, moved.map fun _ => [event])

/-- The progress of a run listens to it. -/
def track (console : Console) : Listener Progress := fun notice p =>
  let (p, shown) := p.fileDone console notice.source notice.report.failure?
  (p, shown.map fun _ => ())

end Progress
end SlimTemplate.Screen
