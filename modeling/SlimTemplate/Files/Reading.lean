import SlimTemplate.FileTree.Operations
import SlimTemplate.Files.Failure
import SlimTemplate.Text.Lowercase

/-!
Reading sources and finding them below a directory.
-/

namespace SlimTemplate.Files

/-- The text of a source file, without a byte order mark. -/
def readSource (tree : FileTree) (p : Path) : Except Trouble String :=
  match tree.readFile p with
  | .error e => .error (.ofOs (.unreadable p ∘ .os) e)
  | .ok bytes =>
      match Text.decodeMarkedText bytes with
      | .error e => .error (.failure (.unreadable p (.decode e)))
      | .ok text => .ok text

/-- The text of a file as it is, a byte order mark included. -/
def readText (tree : FileTree) (p : Path) : Except ReadCause String :=
  match tree.readFile p with
  | .error e => .error (.os e)
  | .ok bytes =>
      match Text.decodeText bytes with
      | .error e => .error (.decode e)
      | .ok text => .ok text

/-- Extensions are compared without regard to case, and may hold several dots. -/
def hasExtension (name extension : String) : Bool :=
  (Text.lower extension).toList.isSuffixOf (Text.lower name).toList

/-- The files with the extension among the entries below a directory. A link is not followed, but
one that cannot even be looked at is an error, and so is a directory that cannot be entered. -/
def collectSources (tree : FileTree) (directory : Path) (extension : String) :
    List (List String × Entry) → Except OsError (List Path)
  | [] => .ok []
  | (names, entry) :: rest =>
      let p : Path := { directory with parts := directory.parts ++ names }
      if !hasExtension p.name extension && entry ≠ .directory then
        collectSources tree directory extension rest
      else
        match entry, tree.isFile p with
        | _, .error e => .error e
        | .file _, .ok _ => (p :: ·) <$> collectSources tree directory extension rest
        | _, .ok _ => collectSources tree directory extension rest

/-- All sources below a directory, in order. -/
def findSources (tree : FileTree) (directory : Path) (extension : String) :
    Except Trouble (List Path) :=
  match tree.isDirectory directory, tree.locate .target directory with
  | .error e, _ => .error (.fault (.os e))
  | .ok true, .ok (.taken location _) =>
      match collectSources tree directory extension (tree.below location) with
      | .error e => .error (.failure (.unscannable directory e))
      | .ok sources => .ok (sources.mergeSort Path.precedes)
  | .ok _, _ => .error (.failure (.notDirectory directory))

end SlimTemplate.Files
