import SlimTemplate.Command.Help
import SlimTemplate.Command.Run
import SlimTemplate.Screen.Plain

/-!
The command line program. The files that a run may reach are read into a tree, the run itself is a
function on that tree, and what it changed is written back. The library cannot tell where a link
leads, so a program that would meet one does not start; a run makes no links where there are none.
-/

namespace SlimTemplate.Program

def pathText (location : Location) : String :=
  "/" ++ "/".intercalate location

/-- Ends the program where a link is met. -/
def refuseLink (location : Location) : IO α :=
  throw (IO.userError ("cannot work with the link on the way to " ++ pathText location))

/-- The entries of a directory with their types; none if it cannot be read. -/
def itemsOf (directory : Location) : IO (List (String × IO.FS.FileType)) := do
  match ← (IO.FS.realPath (pathText directory)).toBaseIO with
  | .error _ => return []
  | .ok path =>
      if path.toString ≠ pathText directory then return ← refuseLink directory
      let mut items := []
      for item in ← (path.readDir <|> pure #[]) do
        if let .ok metadata ← item.path.symlinkMetadata.toBaseIO then
          items := items ++ [(item.fileName, metadata.type)]
      return items

/-- What stands at a location. A file that cannot be read is left out. -/
def entryOf (location : Location) : IO.FS.FileType → IO (Option Entry)
  | .dir => return some .directory
  | .symlink => refuseLink location
  | .other => return none
  | .file => do
      match ← (IO.FS.readBinFile (pathText location)).toBaseIO with
      | .ok content => return some (.file content.toList)
      | .error _ => return none

/-- Everything below a directory. -/
partial def entriesBelow (directory : Location) : IO (List (Location × Entry)) := do
  let mut found := []
  for (name, type) in ← itemsOf directory do
    let here := directory ++ [name]
    if let some entry ← entryOf here type then
      found := found ++ [(here, entry)]
      if entry = .directory then found := found ++ (← entriesBelow here)
  return found

/-- The directories on the way to a location, each with its configuration file, and what stands at
the location itself. -/
def entriesAlong (location : Location) : IO (List (Location × Entry)) := do
  let mut found := []
  for n in List.range (location.length + 1) do
    let directory := location.take n
    for (name, type) in ← itemsOf directory do
      if name = Config.fileName || some name = location[n]? then
        if let some entry ← entryOf (directory ++ [name]) type then
          found := found ++ [(directory ++ [name], entry)]
  return found

/-- The words of a command line that may be paths: all of them, and the values after `=`. -/
def mentionedPaths (words : List String) : List Path :=
  words.flatMap fun word =>
    match Command.splitEquals word with
    | (_, some value) => [.ofText word, .ofText value]
    | (_, none) => [.ofText word]

/-- Where a path leads from the working directory if there are no links on the way. -/
def leadsTo (working : Location) (path : Path) : Location :=
  path.parts.foldl (fun here name => if name = ".." then here.dropLast else here ++ [name])
    (if path.anchor = .here then working else [])

/-- The files that a run may reach: those below the working directory and those it mentions. -/
def readTree (words : List String) : IO FileTree := do
  let working := (Path.ofText (← IO.currentDir).toString).parts
  let mentioned := (mentionedPaths words).map (leadsTo working)
  let outside := mentioned.filter fun location => !working.isPrefixOf location
  let mut tree : FileTree := { entries := [], working }
  for location in working :: outside do
    for (place, entry) in (← entriesAlong location) ++ (← entriesBelow location) do
      tree := tree.set place entry
  return tree

/-- Writes to disk what differs between two trees. -/
def writeChanges (before after : FileTree) : IO Unit := do
  for (location, _) in before.entries do
    if after.get? location = none then IO.FS.removeFile (pathText location)
  for (location, entry) in after.entries do
    if before.get? location ≠ some entry then
      match entry with
      | .directory => IO.FS.createDirAll (pathText location)
      | .file content => IO.FS.writeBinFile (pathText location) ⟨content.toArray⟩
      | .link _ => refuseLink location

def showEvents (events : List Screen.Event) : IO Unit :=
  for event in events do
    match event with
    | .prompt _ => IO.print event.plain
    | _ => IO.println event.plain

/-- Tells how a run ended, and gives its exit code. -/
def finish (ending : Command.Ending) : IO UInt32 := do
  match ending with
  | .exit _ => pure ()
  | .help page _ => IO.println page.text
  | .version => IO.print Command.versionText
  | .usage e => IO.eprintln ("slim2erb: error: " ++ e.message)
  | .fault fault => IO.eprintln (fault.kind ++ ": " ++ fault.message)
  return (ending.code?.getD 1).toUInt32

/-- Runs a command line; a question is put to the user, whose answer is given to a second run. -/
def run (words : List String) : IO UInt32 := do
  let tree ← readTree words
  let outcome := Command.run words [] tree
  showEvents outcome.events
  if let .fault .noAnswer := outcome.ending then
    let line ← (← IO.getStdin).getLine
    if line.isEmpty then return ← finish outcome.ending
    let answer := String.ofList (line.toList.filter (· != '\n'))
    let answered := Command.run words [some answer] tree
    showEvents (answered.events.drop outcome.events.length)
    writeChanges tree answered.tree
    finish answered.ending
  else
    writeChanges tree outcome.tree
    finish outcome.ending

end SlimTemplate.Program

def main (words : List String) : IO UInt32 :=
  SlimTemplate.Program.run words
