import SlimTemplate.FileTree.Operations
import SlimTemplate.Files.Failure

/-!
Actions on files: they change a tree, keep a journal, and may end in trouble. What was done before
the trouble stays done.
-/

namespace SlimTemplate

/-- The files, and what has been noted so far. -/
structure World where
  tree : FileTree
  journal : Journal := []

/-- Actions that may end in `ε`. -/
abbrev Action (ε : Type) := ExceptT ε (StateM World)

namespace Action

/-- A fault is trouble. -/
instance : MonadLift (Action Fault) (Action Trouble) :=
  ⟨ExceptT.adapt .fault⟩

def tree : Action ε FileTree :=
  return (← get).tree

def setTree (tree : FileTree) : Action ε Unit :=
  modify fun world => { world with tree }

def recordAll (entries : Journal) : Action ε Unit :=
  modify fun world => { world with journal := world.journal ++ entries }

def record (entry : Record) : Action ε Unit :=
  recordAll [entry]

def note (level : Level) (origin : Origin) (text : String) : Action ε Unit :=
  record (.note level origin text)

/-- Goes on with a value, or ends in an error. -/
def orThrow (toError : δ → ε) : Except δ α → Action ε α
  | .ok a => pure a
  | .error e => throw (toError e)

/-- Changes the tree, or ends in an error with the tree as it was. -/
def change (toError : OsError → ε) (operation : FileTree → Except OsError FileTree) :
    Action ε Unit := do
  setTree (← orThrow toError (operation (← tree)))

/-- Asks a question about a path. -/
def probe (question : FileTree → Path → Except OsError Bool) (p : Path) : Action Fault Bool := do
  orThrow .os (question (← tree) p)

/-- Runs an action to its end or to its failure; only a fault goes on. -/
def attempt (action : Action Trouble α) : Action Fault (Except Failure α) :=
  ExceptT.mk do
    match ← action.run with
    | .ok a => return .ok (.ok a)
    | .error (.failure failure) => return .ok (.error failure)
    | .error (.fault fault) => return .error fault

/-- Runs an action on a tree with an empty journal. -/
def start (action : Action ε α) (tree : FileTree) : Except ε α × World :=
  action.run.run { tree }

end Action
end SlimTemplate
