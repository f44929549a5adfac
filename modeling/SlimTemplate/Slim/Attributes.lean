/-!
Attributes of a tag: keys with values, in the order in which the keys were first given. Setting a
key again keeps its position and replaces its value.
-/

namespace SlimTemplate.Slim

abbrev Attributes := List (String × String)

namespace Attributes

def get? (attributes : Attributes) (key : String) : Option String :=
  attributes.lookup key

def set : Attributes → String → String → Attributes
  | [], key, value => [(key, value)]
  | (k, v) :: rest, key, value =>
      if k = key then (k, value) :: rest else (k, v) :: set rest key value

def ofPairs (pairs : List (String × String)) : Attributes :=
  pairs.foldl (fun attributes (key, value) => attributes.set key value) []

/-- Explicit attributes on top of those of the shortcuts: an explicit class is added after the
shortcut classes, any other explicit value replaces a shortcut's. -/
def merge (shortcuts explicit : Attributes) : Attributes :=
  explicit.foldl
    (fun attributes (key, value) =>
      match if key = "class" then attributes.get? key else none with
      | some classes => attributes.set key (classes ++ " " ++ value)
      | none => attributes.set key value)
    shortcuts

end Attributes
end SlimTemplate.Slim
