import SlimTemplate.Yaml.Object

/-!
The value of a YAML document. A value is a tree, so the containers of the document are unfolded, up
to places where one would stand inside itself. What a text leaves behind is remembered: the version
that it tells, and, if it has no value, what was begun with it.
-/

namespace SlimTemplate.Yaml

/-- What earlier texts leave behind for later ones. -/
structure Memory where
  version : Version := .v1_2
  anchors : List (String × Nat) := []
  workshop : Workshop := {}

/-! Unfolding -/

/-- What stands for a container inside itself. -/
def Container.enclosing : Container → Enclosing
  | .list _ | .pairs _ | .set _ => .list
  | .map _ => .map
  | .orderedMap _ => .orderedMap

/-- Unfolding containers; the values of those in which none stands inside another that is being
unfolded are kept. -/
abbrev Unfold := StateM (Array (Option Value))

/-- The value of an item, inside containers of the given numbers, and whether it is whole: that no
container in it had to be left out. -/
def unfold (containers : Array Container) (path : List Nat) (item : Item) :
    Nat → Unfold (Value × Bool)
  | 0 => return (.null, false)
  | fuel + 1 => do
      match item with
      | .leaf value => return (value, true)
      | .place place =>
          let container := containers[place]?.getD (.list [])
          if path.contains place then return (.enclosing container.enclosing, false)
          if let some (some value) := (← get)[place]? then return (value, true)
          let inside (item : Item) := unfold containers (place :: path) item fuel
          let insideEntries (entries : List (Value × Item)) := do
            let values ← entries.mapM (inside ·.2)
            return ((entries.map (·.1)).zip (values.map (·.1)), values.all (·.2))
          let (value, whole) ←
            match container with
            | .list items => do
                let values ← items.mapM inside
                pure (Value.list (values.map (·.1)), values.all (·.2))
            | .pairs entries => do
                let values ← entries.mapM fun (a, b) => return (← inside a, ← inside b)
                pure (Value.list (values.map fun ((a, _), (b, _)) => .tuple [a, b]),
                  values.all fun ((_, a), (_, b)) => a && b)
            | .map entries => do
                let (entries, whole) ← insideEntries entries
                pure (Value.map entries, whole)
            | .orderedMap entries => do
                let (entries, whole) ← insideEntries entries
                pure (Value.orderedMap entries, whole)
            | .set items => pure (Value.set items, true)
          if whole then modify (·.setIfInBounds place (some value))
          return (value, whole)
termination_by structural fuel => fuel

/-- The value of a document. The entries of a mapping are unfolded each on its own. -/
def documentValue (containers : Array Container) (root : Item) : Value :=
  let unfold (item : Item) : Unfold Value :=
    return (← unfold containers [] item (containers.size + 1)).1
  let unfoldEntries (entries : List (Value × Item)) : Unfold (List (Value × Value)) :=
    entries.mapM fun (key, item) => return (key, ← unfold item)
  let value : Unfold Value :=
    match root with
    | .leaf value => return value
    | .place place =>
        match containers[place]? with
        | some (.map entries) => Value.map <$> unfoldEntries entries
        | some (.orderedMap entries) => Value.orderedMap <$> unfoldEntries entries
        | _ => unfold root
  (value.run (Array.replicate containers.size none)).1

/-! Reading -/

/-- Reads the value of a text; a text without a document has the value null. A text that is not
complete is known to go on. -/
def read (memory : Memory) (complete : Bool) (text : List Char) : Except Problem Value × Memory :=
  let tokens := tokens memory.version complete text
  let (root, reading) := ((Read.document (4 * tokens.length + 4)).run).run {
    tokens
    version := memory.version
    nodes := memory.workshop.nodes
    anchors := memory.anchors }
  let version := reading.version
  let workshop := { memory.workshop with nodes := reading.nodes }
  let memory : Memory := { version, anchors := reading.anchors, workshop }
  match root with
  | .error problem => (.error problem, memory)
  | .ok none => (.ok .null, memory)
  | .ok (some root) =>
      match ((Make.document version root).run).run workshop with
      | (.ok item, workshop) => (.ok (documentValue workshop.containers item), { version })
      | (.error problem, workshop) => (.error problem, { memory with workshop })

end SlimTemplate.Yaml
