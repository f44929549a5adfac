import SlimTemplate.FileTree.Walk

/-!
Operations on a tree. Each either fails and leaves the tree as it was, or gives the changed tree;
errors carry the path as it was given. Questions about a path count whatever cannot be reached as
absent, except that a name or a path which is too long is an error.
-/

namespace SlimTemplate
namespace FileTree

/-- Answers a question about the entry a path leads to. -/
def probe (tree : FileTree) (p : Path) (test : Entry → Bool) : Except OsError Bool :=
  match tree.locate .target p with
  | .ok (.taken _ entry) => .ok (test entry)
  | .ok (.free _ _) => .ok false
  | .error .nameTooLong => .error ⟨.nameTooLong, p.text, none⟩
  | .error _ => .ok false

def isPresent (tree : FileTree) (p : Path) : Except OsError Bool :=
  tree.probe p fun _ => true

def isFile (tree : FileTree) (p : Path) : Except OsError Bool :=
  tree.probe p fun
    | .file _ => true
    | _ => false

def isDirectory (tree : FileTree) (p : Path) : Except OsError Bool :=
  tree.probe p (· == .directory)

/-- Everything that can be reached may be written to. -/
def isWritable (tree : FileTree) (p : Path) : Except OsError Bool :=
  match tree.locate .target p with
  | .ok (.taken _ _) => .ok true
  | .error .nullByte => .error ⟨.nullByte, p.text, none⟩
  | _ => .ok false

def readFile (tree : FileTree) (p : Path) : Except OsError Text.Bytes :=
  match tree.locate .target p with
  | .ok (.taken _ (.file content)) => .ok content
  | .ok (.taken _ _) => .error ⟨.isDirectory, p.text, none⟩
  | .ok (.free _ _) => .error ⟨.noEntry, p.text, none⟩
  | .error e => .error ⟨e, p.text, none⟩

/-- Writes the content of a file, which is made if there is none. A link is followed, even to a
file that does not exist yet. -/
def writeFile (tree : FileTree) (p : Path) (content : Text.Bytes) : Except OsError FileTree :=
  match tree.locate .output p with
  | .ok (.taken location (.file _)) => .ok (tree.set location (.file content))
  | .ok (.taken _ _) => .error ⟨.isDirectory, p.text, none⟩
  | .ok (.free directory name) => .ok (tree.set (directory ++ [name]) (.file content))
  | .error e => .error ⟨e, p.text, none⟩

/-- Removes a file or a link. -/
def removeFile (tree : FileTree) (p : Path) : Except OsError FileTree :=
  match tree.locate .entry p with
  | .ok (.taken _ .directory) => .error ⟨.isDirectory, p.text, none⟩
  | .ok (.taken location _) => .ok (tree.erase location)
  | .ok (.free _ _) => .error ⟨.noEntry, p.text, none⟩
  | .error e => .error ⟨e, p.text, none⟩

/-- Moves a file or a link to another path, in place of a file or link that may stand there. A path
that ends in dots names no entry that could be replaced. -/
def rename (tree : FileTree) (p q : Path) : Except OsError FileTree :=
  let fail (e : Errno) : Except OsError FileTree := .error ⟨e, p.text, some q.text⟩
  match tree.locate .entry p, tree.locate .entry q with
  | .error e, _ | _, .error e => fail e
  | .ok source, .ok target =>
      if q.parts = [] ∨ q.name = ".." then fail .busy
      else
        match source, target with
        | .free _ _, _ => fail .noEntry
        | .taken _ .directory, _ | _, .taken _ .directory => fail .isDirectory
        | .taken source entry, .taken target _ =>
            if source = target then .ok tree else .ok ((tree.erase source).set target entry)
        | .taken source entry, .free directory name =>
            .ok ((tree.erase source).set (directory ++ [name]) entry)

def createDirectory (tree : FileTree) (p : Path) : Except OsError FileTree :=
  match tree.locate .entry p with
  | .ok (.taken _ _) => .error ⟨.alreadyExists, p.text, none⟩
  | .ok (.free directory name) => .ok (tree.set (directory ++ [name]) .directory)
  | .error e => .error ⟨e, p.text, none⟩

/-- A failed creation is no failure if the directory is there. -/
def excuseDirectory (tree : FileTree) (p : Path) (e : OsError) : Except OsError FileTree :=
  match tree.isDirectory p with
  | .ok true => .ok tree
  | .ok false => .error e
  | .error e => .error e

/-- Makes a directory and whatever is missing on the way to it. The directories made on the way
stay when a later one fails. -/
def createDirectories (tree : FileTree) (p : Path) : FileTree × Except OsError Unit :=
  let finish (tree : FileTree) : Except OsError FileTree → FileTree × Except OsError Unit
    | .ok tree => (tree, .ok ())
    | .error e => (tree, .error e)
  match tree.createDirectory p with
  | .ok tree => (tree, .ok ())
  | .error e =>
      if e.errno ≠ .noEntry then finish tree (tree.excuseDirectory p e)
      else if h : p.parts = [] then (tree, .error e)
      else
        have : p.parent.parts.length < p.parts.length := by
          have := List.length_pos_iff.mpr h
          simp only [Path.parent, List.length_dropLast]
          omega
        match createDirectories tree p.parent with
        | (tree, .error e) => (tree, .error e)
        | (tree, .ok ()) =>
            match tree.createDirectory p with
            | .ok tree => (tree, .ok ())
            | .error e =>
                if e.errno = .noEntry then (tree, .error e)
                else finish tree (tree.excuseDirectory p e)
termination_by p.parts.length

/-- Copies the content of a file; links are followed on both sides. -/
def copyFile (tree : FileTree) (p q : Path) : Except OsError FileTree := do
  let content ← tree.readFile p
  match tree.writeFile q content, tree.isPresent q with
  | .error ⟨.isDirectory, path, _⟩, .ok false => .error ⟨.noDirectory, path, none⟩
  | result, _ => result

end FileTree
end SlimTemplate
