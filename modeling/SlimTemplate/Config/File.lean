import SlimTemplate.FileTree.Resolve
import SlimTemplate.Files.Action
import SlimTemplate.Yaml.Document

/-!
Configuration files: where one is looked for, and what it says. A file that is not there or says
nothing leaves all settings at their defaults.
-/

namespace SlimTemplate.Config

def fileName : String := ".slim2erb.yaml"

/-- What reads the document in a file: from what earlier documents left behind, whether the text is
complete and the text itself comes a value, or the problem with it, and what is left behind then. -/
abbrev Loader (μ : Type) := μ → Bool → List Char → Except Yaml.Problem Value × μ

/-- Settings, or the trouble with them, and what was noted on the way. -/
structure Loading where
  journal : Journal := []
  outcome : Except Trouble Settings

/-- The settings of a file, and what the files that were read leave behind. -/
structure Loaded (μ : Type) extends Loading where
  memory : μ

/-- A warning if sources would be deleted without a copy. -/
def warnings (settings : Settings) : Journal :=
  if settings.isUnrecoverable then
    [.note .warning .config
      "delete_original is set without create_backup: sources will not be recoverable"]
  else []

/-- Accepts settings that pass their checks. -/
def accept (path : Option Path) (checked : Except ConfigError Settings) : Loading :=
  match checked with
  | .ok settings => { journal := warnings settings, outcome := .ok settings }
  | .error e => { outcome := .error (.ofConfigError path e) }

/-- The entries of the document in a configuration file. A document that says nothing has none. -/
def entries (path : Path) : Value → Except Trouble (List (Value × Value))
  | .map entries | .orderedMap entries => .ok entries
  | document =>
      if document.isBlank then .ok [] else .error (.failure (.configNotMapping path))

/-- The document in a configuration file. If its bytes are malformed, what can be read of it may be
malformed already. -/
def document (loader : Loader μ) (tree : FileTree) (memory : μ) (path : Path) :
    Except Trouble Value × μ :=
  match tree.readFile path with
  | .error e => (.error (.failure (.configUnreadable path e)), memory)
  | .ok bytes =>
      let stream := Text.readStream bytes
      let (value, memory) := loader memory stream.broken.isNone stream.text
      match value, stream.broken with
      | .ok _, some e | .error .unfinished, some e => (.error (.fault (.decode e)), memory)
      | .error problem, _ => (.error (.ofProblem path problem), memory)
      | .ok value, none => (.ok value, memory)

/-- The settings that a document in a file describes. -/
def ofDocument (path : Path) (document : Value) : Loading :=
  match entries path document with
  | .error trouble => { outcome := .error trouble }
  | .ok entries =>
      let loading := accept (some path) (Settings.ofMapping path.text entries)
      let note := Record.note .debug .config ("Loaded config from " ++ path.text)
      { loading with journal := note :: loading.journal }

/-- Reads the configuration file at a path, if there is one. -/
def load (loader : Loader μ) (tree : FileTree) (memory : μ) : Option Path → Loaded μ
  | none => { outcome := .ok .standard, memory }
  | some path =>
      match tree.isPresent path with
      | .error e => { outcome := .error (.fault (.os e)), memory }
      | .ok false => { outcome := .ok .standard, memory }
      | .ok true =>
          match document loader tree memory path with
          | (.error trouble, memory) => { outcome := .error trouble, memory }
          | (.ok document, memory) => { ofDocument path document with memory }

/-- The directory itself and all above it, nearest first. -/
def upward (directory : Path) : List Path :=
  ((List.range (directory.parts.length + 1)).reverse).map fun n =>
    { directory with parts := directory.parts.take n }

/-- The first of the directories that has a configuration file. -/
def findIn (tree : FileTree) : List Path → Except OsError (Option Path)
  | [] => .ok none
  | directory :: rest =>
      match tree.isFile (directory.child fileName) with
      | .error e => .error e
      | .ok true => .ok (some (directory.child fileName))
      | .ok false => findIn tree rest

/-- Looks for a configuration file in a directory, or that of a file, and in all above it. -/
def find (tree : FileTree) (start : Path) : Except Fault (Option Path) :=
  match tree.resolve start with
  | .error e => .error (.resolve e)
  | .ok place =>
      match tree.isDirectory place with
      | .error e => .error (.os e)
      | .ok isDirectory =>
          (findIn tree (upward (if isDirectory then place else place.parent))).mapError .os

end SlimTemplate.Config
