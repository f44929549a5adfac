import SlimTemplate.Text.Base64
import SlimTemplate.Value.Listing
import SlimTemplate.Yaml.Node

/-!
Objects made from the nodes of a YAML document. Collections are containers that are made empty and
filled later, so that they can stand inside themselves; a container is filled at once only for the
sake of a key, which has to be known in full. Every node is made into one object.
-/

namespace SlimTemplate.Yaml

/-- A scalar value, or the number of a container. -/
inductive Item where
  | leaf (value : Value)
  | place (container : Nat)
  deriving Repr

inductive Container where
  | list (items : List Item)
  | pairs (entries : List (Item × Item))
  | map (entries : List (Value × Item))
  | orderedMap (entries : List (Value × Item))
  | set (items : List Value)
  deriving Repr

/-- A container that is to be filled from a node. -/
structure Filling where
  node : Nat
  container : Nat
  deriving Repr

/-- Making objects: the nodes, what has been made of them, the containers, those that are still to be
filled, and whether containers are filled at once. No chain of nodes is longer than `limit`. -/
structure Workshop where
  nodes : Array Node := #[]
  limit : Nat := 0
  made : Array (Option Item) := #[]
  containers : Array Container := #[]
  queue : Array Filling := #[]
  deep : Bool := false
  deriving Repr

abbrev Make := ExceptT Problem (StateM Workshop)

namespace Make

def malformed : Make α := throw .malformed

def node (id : Nat) : Make Node := do
  match (← get).nodes[id]? with
  | some node => return node
  | none => malformed

def modifyNode (id : Nat) (f : Node → Node) : Make Unit :=
  modify fun w => { w with nodes := w.nodes.modify id f }

/-- Counts the nodes and entries, so that no chain of nodes is longer. -/
def setLimit : Make Unit :=
  modify fun w =>
    let limit := w.nodes.foldl
      (fun n node => n + 1 + match node.content with | .mapping entries => entries.size | _ => 0) 1
    { w with limit }

def setMade (id : Nat) (item : Item) : Make Unit :=
  modify fun w =>
    let missing := w.nodes.size - w.made.size
    { w with made := (w.made ++ Array.replicate missing none).setIfInBounds id (some item) }

def newContainer (container : Container) : Make Nat := do
  let place := (← get).containers.size
  modify fun w => { w with containers := w.containers.push container }
  return place

def container (place : Nat) : Make Container :=
  return ((← get).containers[place]?).getD (.list [])

def setContainer (place : Nat) (container : Container) : Make Unit :=
  modify fun w => { w with containers := w.containers.setIfInBounds place container }

/-! Scalars -/

/-- The text of a scalar, or of the scalar that a mapping gives where one is wanted. -/
def scalarText (id : Nat) : Nat → Make (List Nat)
  | 0 => malformed
  | fuel + 1 => do
      match (← node id).content with
      | .scalar text => return text
      | .sequence _ => malformed
      | .mapping entries =>
          let nodes := (← get).nodes
          let isDefault (key : Nat) := nodes[key]?.any (·.tag = .default)
          match entries.find? (isDefault ·.1) with
          | some (_, value) => scalarText value fuel
          | none => malformed
termination_by structural fuel => fuel

def truthValue (text : List Nat) : Except Problem Bool :=
  let word := lowerCase text
  let spelled := Text.ofCodePoints word
  if ["yes", "y", "true", "on"].contains spelled then .ok true
  else if ["no", "n", "false", "off"].contains spelled then .ok false
  else .error (.truth word)

/-- The value of a timestamp. A line break at the end of its text does not count. -/
def timestampValue (cs : List Char) : Except Problem Value :=
  match timestamp? (if cs.getLast? == some '\n' then cs.dropLast else cs) with
  | some stamp => stamp.value.mapError .calendar
  | none => .error .malformed

def binaryValue (cs : List Char) : Except Problem Value :=
  if cs.all (·.toNat < 128) then
    match Text.decodeBase64? cs with
    | some bytes => .ok (.bytes bytes)
    | none => .error .malformed
  else .error .malformed

/-- The value of a node that is no collection. -/
def scalarValue (version : Version) (tag : Tag) (id : Nat) : Make Value := do
  let text ← scalarText id (← get).limit
  match tag with
  | .null => return .null
  | .bool => return .bool (← truthValue text)
  | .int => return .int (← integerValue version text)
  | .real => realValue version text
  | .binary => binaryValue (characters text)
  | .timestamp =>
      match (← node id).content with
      | .scalar _ => timestampValue (characters text)
      | _ => malformed
  | _ => return .ofCodePoints text

/-! Merging -/

def mappingOf (id : Nat) : Make (Array (Nat × Nat)) := do
  match (← node id).content with
  | .mapping entries => return entries
  | _ => malformed

def setMapping (id : Nat) (entries : Array (Nat × Nat)) : Make Unit :=
  modifyNode id fun node => { node with content := .mapping entries }

/-- The mappings that a merging entry names: one, or those in a list. -/
def mergedParts (value : Nat) : Make (List Nat) := do
  match (← node value).content with
  | .mapping _ => return [value]
  | .sequence items => return items.toList
  | .scalar _ => malformed

/-- Merges into a mapping what its entries from `index` on say, beside what is `merged` already, and
into the mappings they name before. Of several mappings in a list the first has the last word, and
the mapping itself has the last word of all. Keys of defaults become texts. -/
def merge (id index : Nat) (merged : Array (Nat × Nat)) : Nat → Make Unit
  | 0 => malformed
  | fuel + 1 => do
      let entries ← mappingOf id
      let nodes := (← get).nodes
      let hasTag (tag : Tag) (entry : Nat × Nat) : Bool := nodes[entry.1]?.any (·.tag = tag)
      let later := (entries.toList.drop index).takeWhile (!hasTag .merge ·)
      (later.filter (hasTag .default)).forM fun (key, _) =>
        modifyNode key fun node => { node with tag := Tag.text }
      let index := index + later.length
      match entries[index]? with
      | none =>
          if !merged.isEmpty then
            setMapping id (merged ++ entries)
            modifyNode id fun node => { node with merged := some merged }
      | some (_, value) =>
          if !merged.isEmpty then malformed
          setMapping id (entries.eraseIdxIfInBounds index)
          let parts ← (← mergedParts value).mapM fun part => do
            merge part 0 #[] fuel
            mappingOf part
          merge id index (parts.reverse.foldl (· ++ ·) #[]) fuel
termination_by structural fuel => fuel

/-! Keys -/

/-- The name of the kind of a container. -/
def Container.kindName : Container → String
  | .list _ | .pairs _ => "list"
  | .map _ => "dict"
  | .orderedMap _ => "ordereddict"
  | .set _ => "set"

/-- An item that can be no part of a key if it can still be changed. -/
def fixed (item : Item) : Make (Except Problem Value) := do
  match item with
  | .leaf value => return .ok value
  | .place place => return .error (.changeableKey (Container.kindName (← container place)))

/-- The key that an item makes, of which a part may still turn out to be changeable. A list becomes a
tuple; no other container can be a key. -/
def key (item : Item) : Make (Except Problem Value) := do
  match item with
  | .leaf value => return .ok value
  | .place place =>
      match ← container place with
      | .list items =>
          let parts ← items.mapM fixed
          return Value.tuple <$> parts.mapM id
      | .pairs entries =>
          let parts ← entries.mapM fun (a, b) => do
            let first ← fixed a
            let second ← fixed b
            return do return Value.tuple [← first, ← second]
          return Value.tuple <$> parts.mapM id
      | _ => malformed

/-- Sets the item of a key, which keeps its place if it has one. -/
def setKey (key : Value) (item : Item) : List (Value × Item) → List (Value × Item)
  | [] => [(key, item)]
  | (other, old) :: rest =>
      if other.sameKey key then (other, item) :: rest else (other, old) :: setKey key item rest

def hasKey (key : Value) (entries : List (Value × Item)) : Bool :=
  entries.any (·.1.sameKey key)

/-! Repeated keys -/

/-- The containers that stand in a container. -/
def places (container : Container) : List Nat :=
  let place? : Item → Option Nat
    | .place place => some place
    | .leaf _ => none
  match container with
  | .list items => items.filterMap place?
  | .pairs entries => entries.flatMap fun (first, second) => [first, second].filterMap place?
  | .map entries | .orderedMap entries => entries.filterMap (place? ·.2)
  | .set _ => []

/-- The values that stand in a container itself. -/
def leaves (container : Container) : List Value :=
  let value? : Item → Option Value
    | .leaf value => some value
    | .place _ => none
  match container with
  | .list items => items.filterMap value?
  | .pairs entries => entries.flatMap fun (first, second) => [first, second].filterMap value?
  | .map entries | .orderedMap entries => entries.flatMap fun (key, item) =>
      key :: (value? item).toList
  | .set items => items

/-- The containers that are found from some on, after those that have been found before. -/
def reachable (containers : Array Container) (before : List Nat) : Nat → List Nat → List Nat
  | 0, _ | _, [] => before
  | fuel + 1, place :: rest =>
      if before.contains place then reachable containers before fuel rest
      else
        let inside := ((containers[place]?).map places).getD []
        reachable containers (place :: before) fuel (inside ++ rest)
termination_by structural fuel => fuel

def isShowable (item : Item) : Make Bool := do
  match item with
  | .leaf value => return value.isDisplayable
  | .place place =>
      let containers := (← get).containers
      let fuel := containers.foldl (fun n container => n + 1 + (places container).length) 1
      let reached := (reachable containers [] fuel [place]).filterMap (containers[·]?)
      return reached.all fun container => (leaves container).all Value.isDisplayable

/-- Refuses a key that stands twice. The key and both its values are shown then, if they can be. -/
def refuseRepeated (key : Value) (old new : Item) : Make Unit := do
  if key.isDisplayable && (← isShowable old) && (← isShowable new) then malformed
  else throw .unshowable

/-! Collections -/

/-- The empty container for a collection of a type. -/
def emptyContainer? : Tag → Option Container
  | .list => some (.list [])
  | .pairs => some (.pairs [])
  | .map => some (.map [])
  | .orderedMap => some (.orderedMap [])
  | .set => some (.set [])
  | _ => none

/-- The entries of a mapping, from the making of objects from its nodes. Only entries that nothing is
merged into may not repeat a key. -/
def entries (make : Bool → Nat → Make Item) (unique : Bool) (found : List (Value × Item)) :
    List (Nat × Nat) → Make (List (Value × Item))
  | [] => return found
  | (keyNode, valueNode) :: rest => do
      let key ← key (← make true keyNode)
      let value ← make false valueNode
      let key ← key
      if unique then
        if let some (_, old) := found.find? (·.1.sameKey key) then refuseRepeated key old value
      entries make unique (setKey key value found) rest

def mappingEntries (make : Bool → Nat → Make Item) (id : Nat) : Make (List (Value × Item)) := do
  merge id 0 #[] (2 * (← get).limit)
  let node ← node id
  match node.content, node.merged with
  | .mapping own, some merged =>
      let first ← entries make false [] merged.toList
      let second ← entries make false [] own.toList
      return second.foldl (fun all (key, item) => setKey key item all) first
  | .mapping own, none => entries make true [] own.toList
  | _, _ => malformed

/-- Fills a container from the single entries that the items of a sequence are. -/
def fillSingle (make : Bool → Nat → Make Item) (filling : Filling) : List Nat → Make Unit
  | [] => return
  | item :: rest => do
      let .mapping #[(keyNode, valueNode)] := (← node item).content | malformed
      let key ← make false keyNode
      match ← container filling.container with
      | .orderedMap entries =>
          let key ← (← fixed key)
          if hasKey key entries then throw .repeatedKey
          let value ← make false valueNode
          setContainer filling.container (.orderedMap (entries ++ [(key, value)]))
      | .pairs entries =>
          let value ← make false valueNode
          setContainer filling.container (.pairs (entries ++ [(key, value)]))
      | _ => malformed
      fillSingle make filling rest

def fillWith (make : Bool → Nat → Make Item) (filling : Filling) : Make Unit := do
  let place := filling.container
  match ← container place with
  | .list _ =>
      let .sequence items := (← node filling.node).content | malformed
      setContainer place (.list (← items.toList.mapM (make false)))
  | .map _ => setContainer place (.map (← mappingEntries make filling.node))
  | .set _ =>
      let entries ← mappingEntries make filling.node
      setContainer place (.set (Value.listing (entries.map (·.1))))
  | .orderedMap _ | .pairs _ =>
      let .sequence items := (← node filling.node).content | malformed
      fillSingle make filling items.toList

/-- The object of a node. For the sake of a key all containers in it are filled at once. -/
def make (version : Version) (deep : Bool) (id : Nat) : Nat → Make Item
  | 0 => malformed
  | fuel + 1 => do
      if let some (some item) := (← get).made[id]? then return item
      let before := (← get).deep
      if deep then modify fun w => { w with deep := true }
      setMade id (.leaf .null)
      let tag := (← node id).tag
      let item ←
        match emptyContainer? tag with
        | some container =>
            let place ← newContainer container
            let filling : Filling := ⟨id, place⟩
            if (← get).deep then
              setMade id (.place place)
              fillWith (fun deep id => make version deep id fuel) filling
            else modify fun w => { w with queue := w.queue.push filling }
            pure (Item.place place)
        | none =>
            match tag with
            | .merge | .default | .other _ => malformed
            | tag => Item.leaf <$> scalarValue version tag id
      setMade id item
      if deep then modify fun w => { w with deep := before }
      return item
termination_by structural fuel => fuel

/-- Fills the containers that wait for it, and those that come up on the way. -/
def fillAll (version : Version) : Nat → Make Unit
  | 0 => return
  | rounds + 1 => do
      let queue := (← get).queue
      if queue.isEmpty then return
      modify fun w => { w with queue := #[] }
      let fuel := (← get).limit
      queue.toList.forM fun filling => fillWith (fun deep id => make version deep id fuel) filling
      fillAll version rounds

/-- The object of a whole document. -/
def document (version : Version) (root : Nat) : Make Item := do
  setLimit
  let limit := (← get).limit
  let item ← make version false root limit
  fillAll version limit
  return item

end Make
end SlimTemplate.Yaml
