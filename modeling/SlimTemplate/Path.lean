import SlimTemplate.Text.Quoted

/-!
Paths as they are written: an anchor and the names that follow it. Empty names and single dots are
dropped, double dots are kept, because what they mean depends on the links on the way.
-/

namespace SlimTemplate

/-- What a path starts from. Exactly two leading slashes are an anchor of their own. -/
inductive Anchor where
  | here
  | root
  | doubleRoot
  deriving DecidableEq, Repr

def Anchor.text : Anchor → String
  | .here => ""
  | .root => "/"
  | .doubleRoot => "//"

structure Path where
  anchor : Anchor
  parts : List String
  deriving DecidableEq, Repr

namespace Path

def readAnchor : List Char → Anchor
  | '/' :: '/' :: '/' :: _ => .root
  | '/' :: '/' :: _ => .doubleRoot
  | '/' :: _ => .root
  | _ => .here

/-- The names between the slashes of a text. -/
def splitNames (s : String) : List String :=
  (s.toList.splitOn '/').map String.ofList

def ofText (s : String) : Path :=
  ⟨readAnchor s.toList, (splitNames s).filter fun name => name != "" && name != "."⟩

/-- The text of a path; a path without anchor and names is a single dot. -/
def text (p : Path) : String :=
  if p.anchor = .here ∧ p.parts = [] then "." else p.anchor.text ++ "/".intercalate p.parts

/-- Whether a path has a null byte, which no name can have. -/
def hasNull (p : Path) : Bool :=
  p.parts.any (·.toList.contains '\x00')

/-- The last name of a path; empty if it has none. -/
def name (p : Path) : String :=
  p.parts.getLast?.getD ""

def parent (p : Path) : Path :=
  { p with parts := p.parts.dropLast }

/-- A name without its extension. A dot at either end of the name starts no extension. -/
def stemOf (name : List Char) : List Char :=
  let extension := name.reverse.takeWhile (· != '.')
  let stem := ((name.reverse.dropWhile (· != '.')).drop 1).reverse
  if stem.isEmpty || extension.isEmpty then name else stem

def stem (p : Path) : String :=
  String.ofList (stemOf p.name.toList)

def child (p : Path) (name : String) : Path :=
  { p with parts := p.parts ++ [name] }

/-- The last name of a path cannot be replaced if it has none. -/
structure EmptyName where
  path : Path
  deriving DecidableEq, Repr

def EmptyName.message (e : EmptyName) : String :=
  "PosixPath(" ++ Text.quoted e.path.text ++ ") has an empty name"

/-- The path with another last name. -/
def withName (p : Path) (name : String) : Except EmptyName Path :=
  if p.parts = [] then .error ⟨p⟩ else .ok (p.parent.child name)

/-- The names that lead from one path to another below it, if it is below by its text alone. -/
def relativeTo? (p base : Path) : Option (List String) :=
  if p.anchor = base.anchor ∧ base.parts <+: p.parts then
    some (p.parts.drop base.parts.length)
  else
    none

/-- Whether one path comes before another: names are compared one by one. -/
def precedes (p q : Path) : Bool :=
  !q.parts.lex p.parts (· < ·)

end Path
end SlimTemplate
