import SlimTemplate.Yaml.Tag
import SlimTemplate.Yaml.Token

/-!
Nodes of a YAML document, read from its tokens. Nodes refer to each other by their numbers in a
table, so that an alias is the number of the node it stands for, even inside that node.
-/

namespace SlimTemplate.Yaml

inductive Content where
  | scalar (text : List Nat)
  | sequence (items : Array Nat)
  | mapping (entries : Array (Nat × Nat))
  deriving Repr

structure Node where
  tag : Tag
  content : Content
  /-- What has been merged into a mapping. -/
  merged : Option (Array (Nat × Nat)) := none
  deriving Repr

/-- A node that is left out. -/
def Node.empty : Node := { tag := .null, content := .scalar [] }

/-- Reading nodes: the tokens to come, the version and the expansions of tag handles that hold, and
the nodes so far with their anchors, latest first. -/
structure Reading where
  tokens : List Token
  version : Version
  handles : List (String × String) := []
  nodes : Array Node
  anchors : List (String × Nat)

abbrev Read := ExceptT Problem (StateM Reading)

namespace Read

def malformed : Read α := throw .malformed

/-- The next token; there is none at the end. -/
def next : Read (Option Token) := do
  match (← get).tokens.head? with
  | some (.stop problem) => throw problem
  | token => return token

def skip : Read Unit :=
  modify fun r => { r with tokens := r.tokens.tail }

/-- Whether one of the given tokens comes next. -/
def nextIn (tokens : List Token) : Read Bool := do
  return (← next).any tokens.contains

def expect (token : Token) : Read Unit := do
  if (← next) == some token then skip else malformed

def anchor? : Read (Option String) := do
  match ← next with
  | some (.anchor name) => skip; return some name
  | _ => return none

/-- The expansions of the common tag handles. -/
def commonHandles : List (String × String) :=
  [("!", "!"), ("!!", Tag.vocabulary)]

def expand (handle : Option String) (rest : String) : Read String := do
  match handle with
  | none => return rest
  | some handle =>
      match ((← get).handles ++ commonHandles).lookup handle with
      | some expansion => return expansion ++ rest
      | none => malformed

/-- The anchor and the tag of a node, in either order. -/
def properties : Read (Option String × Option String) := do
  match ← next with
  | some (.anchor name) =>
      skip
      match ← next with
      | some (.tag handle rest) => skip; return (some name, some (← expand handle rest))
      | _ => return (some name, none)
  | some (.tag handle rest) =>
      skip
      let name ← anchor?
      return (name, some (← expand handle rest))
  | _ => return (none, none)

/-- Adds a node to the table and gives it its anchor. -/
def add (name : Option String) (node : Node) : Read Nat := do
  let id := (← get).nodes.size
  modify fun r => { r with nodes := r.nodes.push node }
  if let some name := name then
    modify fun r => { r with anchors := (name, id) :: r.anchors }
  return id

def empty : Read Nat := add none .empty

/-- The tag of a scalar. Without a tag a plain scalar has the type of its text, and so has every
scalar with the tag `!`. -/
def scalarTag (tag : Option String) (text : List Nat) (plain : Bool) : Read Tag := do
  match tag, plain with
  | none, false => return Tag.text
  | none, true | some "!", _ => return .ofPlain (← get).version (Text.ofCodePoints text)
  | some name, _ => return .ofName name

/-- Adds a collection, whose tag is that of its kind unless it is told. -/
def addCollection (name tag : Option String) (kind : Tag) (content : Content) : Read Nat :=
  match tag with
  | none | some "!" => add name { tag := kind, content }
  | some tag => add name { tag := .ofName tag, content }

def addSequence (name tag : Option String) : Read Nat :=
  addCollection name tag .list (.sequence #[])

def addMapping (name tag : Option String) : Read Nat :=
  addCollection name tag .map (.mapping #[])

def addItem (id item : Nat) : Read Unit :=
  modify fun r => { r with nodes := r.nodes.modify id fun node =>
    match node.content with
    | .sequence items => { node with content := .sequence (items.push item) }
    | _ => node }

def addEntry (id key value : Nat) : Read Unit :=
  modify fun r => { r with nodes := r.nodes.modify id fun node =>
    match node.content with
    | .mapping entries => { node with content := .mapping (entries.push (key, value)) }
    | _ => node }

mutual

/-- A node. In a block it may be a block collection, and in a block mapping also a sequence that is
not indented. -/
def node (inBlock inMapping : Bool) : Nat → Read Nat
  | 0 => malformed
  | fuel + 1 => do
      if let some (.alias name) ← next then
        skip
        match (← get).anchors.lookup name with
        | some id => return id
        | none => malformed
      else
        let (name, tag) ← properties
        match ← next, inBlock, inMapping with
        | some .blockEntry, _, true =>
            let id ← addSequence name tag
            looseItems id fuel
            return id
        | some (.scalar text plain), _, _ =>
            skip
            add name { tag := ← scalarTag tag text plain, content := .scalar text }
        | some .flowSequenceStart, _, _ =>
            skip
            let id ← addSequence name tag
            flowItems id true fuel
            return id
        | some .flowMappingStart, _, _ =>
            skip
            let id ← addMapping name tag
            flowEntries id true fuel
            return id
        | some .blockSequenceStart, true, _ =>
            skip
            let id ← addSequence name tag
            blockItems id fuel
            return id
        | some .blockMappingStart, true, _ =>
            skip
            let id ← addMapping name tag
            blockEntries id fuel
            return id
        | _, _, _ =>
            if name.isNone && tag.isNone then malformed
            else add name { tag := ← scalarTag tag [] true, content := .scalar [] }
termination_by structural fuel => fuel

/-- A node, unless one of the given tokens comes next. -/
def nodeUnless (inBlock inMapping : Bool) (ends : List Token) : Nat → Read Nat
  | 0 => malformed
  | fuel + 1 => do
      if ← nextIn ends then empty else node inBlock inMapping fuel
termination_by structural fuel => fuel

/-- The items of a block sequence that is not indented. -/
def looseItems (id : Nat) : Nat → Read Unit
  | 0 => malformed
  | fuel + 1 => do
      if (← next) != some .blockEntry then return
      skip
      addItem id (← nodeUnless true false [.blockEntry, .key, .value, .blockEnd] fuel)
      looseItems id fuel

def blockItems (id : Nat) : Nat → Read Unit
  | 0 => malformed
  | fuel + 1 => do
      match ← next with
      | some .blockEntry =>
          skip
          addItem id (← nodeUnless true false [.blockEntry, .blockEnd] fuel)
          blockItems id fuel
      | some .blockEnd => skip
      | _ => malformed
termination_by structural fuel => fuel

/-- The entries of a block mapping. Only the later version lets a key be left out. -/
def blockEntries (id : Nat) : Nat → Read Unit
  | 0 => malformed
  | fuel + 1 => do
      let ends := [Token.key, .value, .blockEnd]
      match ← next with
      | some .key =>
          skip
          let key ← nodeUnless true true ends fuel
          let value ←
            if (← next) == some .value then skip; nodeUnless true true ends fuel
            else empty
          addEntry id key value
          blockEntries id fuel
      | some .value =>
          if (← get).version = .v1_1 then malformed
          let key ← empty
          skip
          addEntry id key (← nodeUnless true true ends fuel)
          blockEntries id fuel
      | some .blockEnd => skip
      | _ => malformed

def flowItems (id : Nat) (first : Bool) : Nat → Read Unit
  | 0 => malformed
  | fuel + 1 => do
      if (← next) == some .flowSequenceEnd then skip; return
      if !first then expect .flowEntry
      match ← next with
      | some .flowSequenceEnd => skip
      | some .key =>
          let pair ← addMapping none none
          skip
          let key ← nodeUnless false false [.value, .flowEntry, .flowSequenceEnd] fuel
          addEntry pair key (← flowValue .flowSequenceEnd fuel)
          addItem id pair
          flowItems id false fuel
      | _ =>
          addItem id (← node false false fuel)
          flowItems id false fuel
termination_by structural fuel => fuel

/-- The entries of a flow mapping. Only the later version lets a key be left out. -/
def flowEntries (id : Nat) (first : Bool) : Nat → Read Unit
  | 0 => malformed
  | fuel + 1 => do
      if (← next) == some .flowMappingEnd then skip; return
      if !first then expect .flowEntry
      match ← next with
      | some .flowMappingEnd => skip
      | some .key =>
          skip
          let key ← nodeUnless false false [.value, .flowEntry, .flowMappingEnd] fuel
          addEntry id key (← flowValue .flowMappingEnd fuel)
          flowEntries id false fuel
      | some .value =>
          if (← get).version = .v1_1 then malformed
          let key ← empty
          addEntry id key (← flowValue .flowMappingEnd fuel)
          flowEntries id false fuel
      | _ =>
          let key ← node false false fuel
          addEntry id key (← empty)
          flowEntries id false fuel
termination_by structural fuel => fuel

/-- The value after a key of a flow collection, which may be left out. -/
def flowValue (close : Token) : Nat → Read Nat
  | 0 => malformed
  | fuel + 1 => do
      if (← next) == some .value then
        skip
        nodeUnless false false [.flowEntry, close] fuel
      else empty
termination_by structural fuel => fuel

end

/-- The directives before a document: the minor version, if one tells it, and the tag handles. At
most one tells the version, whose major part has to be 1, and none gives a handle a second time. -/
def directives (minor : Option Nat) (handles : List (String × String)) :
    Nat → Read (Option Nat × List (String × String))
  | 0 => malformed
  | fuel + 1 => do
      match ← next with
      | some (.yamlDirective major declared) =>
          if minor.isSome || major != 1 then malformed
          else skip; directives (some declared) handles fuel
      | some (.tagDirective handle expansion) =>
          if (handles.lookup handle).isSome then malformed
          else skip; directives minor ((handle, expansion) :: handles) fuel
      | some .otherDirective => skip; directives minor handles fuel
      | _ => return (minor, handles)

/-- The explicit start of a document. It tells the version, also that of later texts which do not
start so. -/
def start (fuel : Nat) : Read Unit := do
  let (minor, handles) ← directives none [] fuel
  if let some minor := minor then
    if minor != 1 && minor != 2 then throw (.version minor)
  modify fun r => { r with version := minor.elim .v1_2 Version.ofMinor, handles }
  expect .documentStart

/-- Whether a document starts explicitly here. -/
def atStart : Read Bool := do
  match ← next with
  | some .documentStart | some .otherDirective | some (.yamlDirective ..)
  | some (.tagDirective ..) => return true
  | _ => return false

/-- The content of a document after its explicit start, which may be left out. -/
def content (fuel : Nat) : Read Nat := do
  if (← next).isNone || (← atStart) || (← next) == some .documentEnd then empty
  else node true false fuel

def skipEnds : Nat → Read Unit
  | 0 => return
  | fuel + 1 => do
      if (← next) == some .documentEnd then skip; skipEnds fuel

/-- The end of a document, after which the text has to end. The later version takes only one mark
for it. -/
def finish (fuel : Nat) : Read Unit := do
  let marked := (← next) == some .documentEnd
  if marked then skip
  modify fun r => { r with anchors := [] }
  if (← get).version = .v1_1 then skipEnds fuel
  if (← next).isNone then return
  if !marked || (← get).version = .v1_1 || (← atStart) then start fuel
  malformed

/-- The only document of a text, if there is one. -/
def document (fuel : Nat) : Read (Option Nat) := do
  if (← next).isNone then return none
  let explicit ← atStart
  if explicit then start fuel
  let root ← if explicit then content fuel else node true false fuel
  finish fuel
  return some root

end Read
end SlimTemplate.Yaml
