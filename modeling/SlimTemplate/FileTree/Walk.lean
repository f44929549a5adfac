import SlimTemplate.FileTree.Basic
import SlimTemplate.FileTree.Error
import SlimTemplate.Path

/-!
Following a path through a tree. Every name but the last has to lead to a directory, links are
followed up to a fixed number, and names of more than 255 bytes are refused where they are met. A
path that is too long as a whole, or has a null byte, is not followed at all.
-/

namespace SlimTemplate

/-- Where a path leads: to an entry, or to a free name in a directory. -/
inductive Place where
  | taken (location : Location) (entry : Entry)
  | free (directory : Location) (name : String)
  deriving DecidableEq, Repr

def maxNameBytes : Nat := 255

def maxPathBytes : Nat := 4095

def maxLinks : Nat := 40

/-- What a path is followed for: the entry it names, the entry that a last link leads to, or such an
entry to write a file. -/
inductive Aim where
  | entry
  | target
  | output
  deriving DecidableEq, Repr

namespace FileTree

/-- The location from which a path or the target of a link starts. -/
def start (here : Location) : Anchor → Location
  | .here => here
  | .root | .doubleRoot => []

/-- Follows names from a location; from a link on, `follow` takes over. A last name with a slash
after it, which only the target of a link can have, can be no file to write. -/
def walkUpTo (tree : FileTree) (aim : Aim) (follow : Location → List String → Except Errno Place)
    (here : Location) : List String → Except Errno Place
  | [] =>
      match tree.get? here with
      | some entry => .ok (.taken here entry)
      | none => .error .noEntry
  | name :: rest =>
      if tree.get? here = none then .error .noEntry
      else if tree.get? here ≠ some .directory then .error .notDirectory
      else if name = "" || name = "." then walkUpTo tree aim follow here rest
      else if name = ".." then walkUpTo tree aim follow here.dropLast rest
      else if aim = .output && rest ≠ [] && rest.all (· = "") then .error .isDirectory
      else if maxNameBytes < name.utf8ByteSize then .error .nameTooLong
      else
        match tree.get? (here ++ [name]) with
        | none => if rest = [] then .ok (.free here name) else .error .noEntry
        | some (.link target) =>
            if rest = [] && aim = .entry then .ok (.taken (here ++ [name]) (.link target))
            else
              follow (start here (Path.readAnchor target.toList)) (Path.splitNames target ++ rest)
        | some _ => walkUpTo tree aim follow (here ++ [name]) rest

/-- Follows names from a location; `links` is the number of links that may still be followed. -/
def walk (tree : FileTree) (aim : Aim) : (links : Nat) → Location → List String → Except Errno Place
  | 0 => walkUpTo tree aim fun _ _ => .error .linkLoop
  | links + 1 => walkUpTo tree aim (walk tree aim links)

theorem walk_nil (tree : FileTree) (aim : Aim) (links : Nat) (here : Location) :
    tree.walk aim links here [] =
      match tree.get? here with
      | some entry => .ok (.taken here entry)
      | none => .error .noEntry := by
  cases links with
  | zero | succ links => rfl

theorem walk_name (tree : FileTree) (aim : Aim) (links : Nat) (here : Location) (name : String)
    (rest : List String) :
    tree.walk aim links here (name :: rest) =
      if tree.get? here = none then .error .noEntry
      else if tree.get? here ≠ some .directory then .error .notDirectory
      else if name = "" || name = "." then tree.walk aim links here rest
      else if name = ".." then tree.walk aim links here.dropLast rest
      else if aim = .output && rest ≠ [] && rest.all (· = "") then .error .isDirectory
      else if maxNameBytes < name.utf8ByteSize then .error .nameTooLong
      else
        match tree.get? (here ++ [name]) with
        | none => if rest = [] then .ok (.free here name) else .error .noEntry
        | some (.link target) =>
            if rest = [] && aim = .entry then .ok (.taken (here ++ [name]) (.link target))
            else
              match links with
              | 0 => .error .linkLoop
              | links + 1 =>
                  tree.walk aim links (start here (Path.readAnchor target.toList))
                    (Path.splitNames target ++ rest)
        | some _ => tree.walk aim links (here ++ [name]) rest := by
  cases links with
  | zero | succ links => rfl

/-- Where a path leads. -/
def locate (tree : FileTree) (aim : Aim) (p : Path) : Except Errno Place :=
  if p.hasNull then .error .nullByte
  else if maxPathBytes < p.text.utf8ByteSize then .error .nameTooLong
  else tree.walk aim maxLinks (start tree.working p.anchor) p.parts

end FileTree
end SlimTemplate
