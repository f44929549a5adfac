import SlimTemplate.Yaml.Number
import SlimTemplate.Yaml.Timestamp

/-!
Tags: the types of YAML nodes. A node without a tag has the type of its kind, and a plain scalar that
of its text.
-/

namespace SlimTemplate.Yaml

inductive Tag where
  | null
  | bool
  | int
  | real
  | binary
  | timestamp
  | orderedMap
  | pairs
  | set
  | text
  | list
  | map
  /-- The key of what is merged into a mapping. -/
  | merge
  /-- The key of the value that a mapping has where a scalar is wanted. -/
  | default
  | other (name : String)
  deriving DecidableEq, Repr

namespace Tag

/-- What the names of the common types start with. -/
def vocabulary : String := "tag:yaml.org,2002:"

def ofName (name : String) : Tag :=
  let common : List (String × Tag) :=
    [("null", null), ("bool", bool), ("int", int), ("float", real), ("binary", binary),
     ("timestamp", timestamp), ("omap", orderedMap), ("pairs", pairs), ("set", set), ("str", text),
     ("seq", list), ("map", map), ("merge", merge), ("value", default)]
  match common.find? fun (short, _) => vocabulary ++ short == name with
  | some (_, tag) => tag
  | none => other name

def truthWords : Version → List String
  | .v1_2 => ["true", "True", "TRUE", "false", "False", "FALSE"]
  | .v1_1 =>
      ["y", "Y", "yes", "Yes", "YES", "n", "N", "no", "No", "NO", "true", "True", "TRUE", "false",
       "False", "FALSE", "on", "On", "ON", "off", "Off", "OFF"]

/-- The type of a plain scalar. A line break at the end of the text does not count. -/
def ofPlain (version : Version) (text : String) : Tag :=
  let cs := text.toList
  let body := if cs.getLast? == some '\n' then cs.dropLast else cs
  let word := String.ofList body
  if cs.isEmpty then null
  else if body.isEmpty then Tag.text
  else if (truthWords version).contains word then bool
  else if isReal version body then real
  else if isInteger version body then int
  else if word == "<<" then merge
  else if ["~", "null", "Null", "NULL"].contains word then null
  else if isTimestamp body then timestamp
  else if word == "=" then default
  else if ["!", "&", "*"].contains word then other (vocabulary ++ "yaml")
  else Tag.text

end Tag
end SlimTemplate.Yaml
