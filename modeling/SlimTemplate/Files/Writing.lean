import SlimTemplate.FileTree.Resolve
import SlimTemplate.Files.Action
import SlimTemplate.Files.Output

/-!
Writing output: the directory is made, the source is backed up, the output is written to a
temporary file and moved into place, and only then may the source be deleted. Every directory that
is there may be written to, and the disk does not fill up.
-/

namespace SlimTemplate.Files

def temporarySuffix : String := ".slim2erb.tmp"

def ensureDirectory (directory : Path) : Action Trouble Unit := do
  if ← Action.probe FileTree.isDirectory directory then return
  Action.note .info .files ("Creating output directory: " ++ directory.text)
  let (tree, result) := (← Action.tree).createDirectories directory
  Action.setTree tree
  Action.orThrow (.ofOs (.directory directory)) result

/-- The names of the backups of a file, in the order in which they are tried. -/
def backupName (name : String) : Nat → String
  | 0 => name ++ ".backup"
  | n + 1 => name ++ "-" ++ toString (n + 1) ++ ".backup"

/-- The first of the backup names, from the `n`th on, that is not in use. `fuel` bounds the number
of names tried; it is not used up if it exceeds the number of entries. -/
def freeBackup (tree : FileTree) (p : Path) : (fuel n : Nat) → Except Fault Path
  | 0, n =>
      match p.withName (backupName p.name n) with
      | .error e => .error (.emptyName e)
      | .ok candidate => .ok candidate
  | fuel + 1, n =>
      match p.withName (backupName p.name n) with
      | .error e => .error (.emptyName e)
      | .ok candidate =>
          match tree.isPresent candidate with
          | .error e => .error (.os e)
          | .ok false => .ok candidate
          | .ok true => freeBackup tree p fuel (n + 1)

/-- Copies a file to the first free backup name. -/
def createBackup (p : Path) : Action Trouble Path := do
  let tree ← Action.tree
  let backup ← Action.orThrow .fault (freeBackup tree p (tree.entries.length + 1) 0)
  Action.change (.ofOs (.backup p)) (·.copyFile p backup)
  return backup

/-- Writes a file under a temporary name and moves it to its own. A file that was written but could
not be moved stays under the temporary name. -/
def placeFile (tree : FileTree) (temporary target : Path) (content : Text.Bytes) :
    FileTree × Except OsError Unit :=
  match tree.writeFile temporary content with
  | .error e => (tree, .error e)
  | .ok written =>
      match written.rename temporary target with
      | .error e => (written, .error e)
      | .ok placed => (placed, .ok ())

/-- Opens a file under a temporary name, and leaves it empty. -/
def openFile (tree : FileTree) (temporary : Path) : FileTree × Except OsError Unit :=
  match tree.writeFile temporary [] with
  | .error e => (tree, .error e)
  | .ok opened => (opened, .ok ())

/-- Removes a temporary file if it is there, and ends in trouble. -/
def giveUp (temporary : Path) (trouble : Trouble) : Action Trouble Unit := do
  if ← Action.probe FileTree.isPresent temporary then
    Action.change (.fault ∘ .os) (·.removeFile temporary)
  throw trouble

/-- Puts a content in place by way of a temporary file, which is removed if the file system fails.
It is opened before the content is encoded, and stays if that cannot be done. -/
def putInPlace (temporary target : Path) (content : AnyText) : Action Trouble Unit := do
  let before ← Action.tree
  let (tree, placed) :=
    match content.encode with
    | .ok bytes => placeFile before temporary target bytes
    | .error _ => openFile before temporary
  Action.setTree tree
  match placed, content.encode with
  | .error e, _ => giveUp temporary (.ofOs (.write target) e)
  | .ok (), .error e => throw (.fault (.encode e))
  | .ok (), .ok _ => return

/-- Writes a file all at once. -/
def atomicWrite (target : Path) (content : AnyText) : Action Trouble Unit := do
  if !(← Action.probe FileTree.isWritable target.parent) then
    throw (.failure (.noAccess target))
  let temporary ← Action.orThrow (.fault ∘ .emptyName)
    (target.withName (target.name ++ temporarySuffix))
  putInPlace temporary target content

/-- What became of the files of a conversion. -/
structure Written where
  output : Path
  backup : Option Path
  deleted : Bool

/-- A source is backed up only if it is there. -/
def backUp (source : Path) : Action Trouble (Option Path) := do
  if ← Action.probe FileTree.isPresent source then
    return some (← createBackup source)
  else
    return none

/-- Deletes a source, unless it is not there or the output has taken its place; tells whether it
was deleted. -/
def deleteSource (source output : Path) : Action Trouble Bool := do
  if !(← Action.probe FileTree.isPresent source) then return false
  let tree ← Action.tree
  let sourcePlace ← Action.orThrow (.fault ∘ .resolve) (tree.resolve source)
  let outputPlace ← Action.orThrow (.fault ∘ .resolve) (tree.resolve output)
  if sourcePlace = outputPlace then return false
  Action.change (.ofOs (.deletion source)) (·.removeFile source)
  return true

/-- Writes the output of a source, keeping a copy of the source or deleting it as asked. -/
def writeOutput (source : Path) (content : AnyText) (keepBackup delete : Bool)
    (outputDirectory : Option String) (root : Option Path) : Action Trouble Written := do
  let output ← Action.orThrow (.fault ∘ .emptyName) (outputPath source outputDirectory root)
  ensureDirectory output.parent
  let backup ← if keepBackup then backUp source else pure none
  atomicWrite output content
  let deleted ← if delete then deleteSource source output else pure false
  return ⟨output, backup, deleted⟩

end SlimTemplate.Files
