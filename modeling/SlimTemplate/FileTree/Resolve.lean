import SlimTemplate.FileTree.Walk

/-!
The absolute path of an entry without links. Names that lead nowhere are kept as they are, so that
every path has such a form; only paths that run into a loop of links and those with a null byte have none.
-/

namespace SlimTemplate

/-- Why a path has no such form: it runs into a loop of links, or it is no path at all. -/
inductive ResolveError where
  | linkLoop (path : String)
  | nullByte
  deriving DecidableEq, Repr

def ResolveError.message : ResolveError → String
  | .linkLoop path => "Symlink loop from " ++ Text.quoted path
  | .nullByte => Errno.nullByte.text

namespace FileTree

/-- A place on the way, as it is written: below the root, or from the working directory on. A link
is recognized by this, so it may be met once under each of its two forms. -/
structure Waypoint where
  absolute : Bool
  names : List String
  deriving DecidableEq, Repr

namespace Waypoint

def location (working : Location) (w : Waypoint) : Location :=
  let up (here : Location) (name : String) := if name = ".." then here.dropLast else here ++ [name]
  w.names.foldl up (if w.absolute then [] else working)

def child (w : Waypoint) (name : String) : Waypoint :=
  { w with names := w.names ++ [name] }

/-- One level up. A relative form that is used up goes on above the working directory. -/
def up (w : Waypoint) : Waypoint :=
  if w.absolute || (w.names ≠ [] && w.names.getLast? ≠ some "..") then
    { w with names := w.names.dropLast }
  else w.child ".."

/-- The place from which a path or the target of a link starts. -/
def start (here : Waypoint) : Anchor → Waypoint
  | .here => here
  | .root | .doubleRoot => ⟨true, []⟩

/-- The place that names lead to if none of them is a link. Where two slashes follow each other the
names start from the root. -/
def append (w : Waypoint) (names : List String) : Waypoint :=
  let origin : Waypoint := if names.length > 1 && names.head? = some "" then ⟨true, []⟩ else w
  names.foldl
    (fun w name => if name = "" || name = "." then w else if name = ".." then w.up else w.child name)
    origin

end Waypoint

/-- What is known of the links met so far: where they lead, or that they are being followed. -/
abbrev SeenLinks := List (Waypoint × Option Waypoint)

/-- Where names lead, whether they could be followed to the end, and the links met. -/
structure Resolution where
  place : Waypoint
  complete : Bool
  seen : SeenLinks

/-- Follows names, resolving each link the first time it is met. A link that is met while it is
being followed, or that there is no way to follow, ends the resolution with the remaining names
unresolved. -/
def resolveUpTo (tree : FileTree)
    (follow : Option (SeenLinks → Waypoint → List String → Resolution)) (seen : SeenLinks)
    (here : Waypoint) : List String → Resolution
  | [] => ⟨here, true, seen⟩
  | name :: rest =>
      if name = "" || name = "." then resolveUpTo tree follow seen here rest
      else if name = ".." then resolveUpTo tree follow seen here.up rest
      else
        let next := here.child name
        match tree.get? (next.location tree.working) with
        | some (.link target) =>
            match seen.lookup next with
            | some (some known) => resolveUpTo tree follow seen known rest
            | some none => ⟨next.append rest, false, seen⟩
            | none =>
                match follow with
                | none => ⟨next.append rest, false, seen⟩
                | some resolve =>
                    let r := resolve ((next, none) :: seen)
                      (here.start (Path.readAnchor target.toList)) (Path.splitNames target)
                    if r.complete then
                      resolveUpTo tree follow ((next, some r.place) :: r.seen) r.place rest
                    else ⟨r.place.append rest, false, r.seen⟩
        | _ => resolveUpTo tree follow seen next rest

/-- Follows names through links. `fuel` bounds how deep links lead to links; it is never used up if
it exceeds the number of forms they can be met under. -/
def resolveNames (tree : FileTree) :
    (fuel : Nat) → SeenLinks → Waypoint → List String → Resolution
  | 0 => resolveUpTo tree none
  | fuel + 1 => resolveUpTo tree (some (resolveNames tree fuel))

theorem resolveNames_nil (tree : FileTree) (fuel : Nat) (seen : SeenLinks) (here : Waypoint) :
    tree.resolveNames fuel seen here [] = ⟨here, true, seen⟩ := by
  cases fuel with
  | zero | succ fuel => rfl

theorem resolveNames_name (tree : FileTree) (fuel : Nat) (seen : SeenLinks) (here : Waypoint)
    (name : String) (rest : List String) :
    tree.resolveNames fuel seen here (name :: rest) =
      if name = "" || name = "." then tree.resolveNames fuel seen here rest
      else if name = ".." then tree.resolveNames fuel seen here.up rest
      else
        let next := here.child name
        match tree.get? (next.location tree.working) with
        | some (.link target) =>
            match seen.lookup next with
            | some (some known) => tree.resolveNames fuel seen known rest
            | some none => ⟨next.append rest, false, seen⟩
            | none =>
                match fuel with
                | 0 => ⟨next.append rest, false, seen⟩
                | fuel + 1 =>
                    let r := tree.resolveNames fuel ((next, none) :: seen)
                      (here.start (Path.readAnchor target.toList)) (Path.splitNames target)
                    if r.complete then
                      tree.resolveNames (fuel + 1) ((next, some r.place) :: r.seen) r.place rest
                    else ⟨r.place.append rest, false, r.seen⟩
        | _ => tree.resolveNames fuel seen next rest := by
  cases fuel with
  | zero | succ fuel => rfl

/-- The absolute path that a path leads to, without links and dots. -/
def resolve (tree : FileTree) (p : Path) : Except ResolveError Path :=
  if p.hasNull then .error .nullByte
  else
    let r := tree.resolveNames ((tree.working.length + 2) * tree.entries.length + 1) []
      (Waypoint.start ⟨false, []⟩ p.anchor) p.parts
    let resolved : Path := ⟨.root, r.place.location tree.working⟩
    match tree.locate .target resolved with
    | .error .linkLoop => .error (.linkLoop resolved.text)
    | _ => .ok resolved

end FileTree
end SlimTemplate
