import SlimTemplate.Text.Utf8

/-!
File trees as values. A tree is a finite map from locations to entries; the location of an entry is
the list of names that lead to it from the root. The root itself is always a directory. Names are
strings, every file stands at one location only, and there are no owners and permissions: hard
links and names that are not UTF-8 are left out.
-/

namespace SlimTemplate

/-- The names that lead from the root to an entry, without links and dots. -/
abbrev Location := List String

inductive Entry where
  | file (content : Text.Bytes)
  | directory
  | link (target : String)
  deriving DecidableEq, Repr

/-- The entries below the root, and the location from which relative paths start. -/
structure FileTree where
  entries : List (Location × Entry)
  working : Location
  deriving DecidableEq, Repr

namespace FileTree

def get? (tree : FileTree) (location : Location) : Option Entry :=
  if location = [] then some .directory else tree.entries.lookup location

def setEntry (location : Location) (entry : Entry) :
    List (Location × Entry) → List (Location × Entry)
  | [] => [(location, entry)]
  | (other, old) :: rest =>
      if other = location then (location, entry) :: rest
      else (other, old) :: setEntry location entry rest

def set (tree : FileTree) (location : Location) (entry : Entry) : FileTree :=
  { tree with entries := setEntry location entry tree.entries }

def erase (tree : FileTree) (location : Location) : FileTree :=
  { tree with entries := tree.entries.filter (·.1 != location) }

/-- The entries strictly below a location, each with the names that lead to it from there. -/
def below (tree : FileTree) (location : Location) : List (List String × Entry) :=
  tree.entries.filterMap fun (other, entry) =>
    if location.isPrefixOf other && location.length < other.length then
      some (other.drop location.length, entry)
    else
      none

theorem lookup_setEntry (location other : Location) (entry : Entry)
    (entries : List (Location × Entry)) :
    (setEntry location entry entries).lookup other =
      if other = location then some entry else entries.lookup other := by
  induction entries with
  | nil =>
      by_cases h : other = location
      · simp [setEntry, h]
      · simp [setEntry, List.lookup_cons, h, beq_false_of_ne h]
  | cons head rest ih =>
      obtain ⟨key, old⟩ := head
      by_cases hkey : key = location
      · by_cases h : other = location
        · simp [setEntry, hkey, h]
        · simp [setEntry, List.lookup_cons, hkey, h, beq_false_of_ne h]
      · by_cases hother : other = key
        · subst hother
          simp [setEntry, hkey]
        · simp [setEntry, List.lookup_cons, hkey, beq_false_of_ne hother, ih]

/-- A location other than the root holds what was last set there; all others are as before. -/
theorem get?_set (tree : FileTree) (location other : Location) (entry : Entry)
    (hroot : location ≠ []) :
    (tree.set location entry).get? other =
      if other = location then some entry else tree.get? other := by
  by_cases h : other = []
  · subst h
    simp [get?, Ne.symm hroot]
  · simp [get?, set, h, lookup_setEntry]

end FileTree
end SlimTemplate
