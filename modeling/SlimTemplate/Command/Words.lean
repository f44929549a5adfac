import SlimTemplate.Text.Integer
import SlimTemplate.Text.Quoted

/-!
The words of a command line. A word is an argument, a switch or the separator `--`, after which all
words are arguments. Long switches may be shortened as long as it is clear which is meant, and short
ones may be joined.
-/

namespace SlimTemplate.Command

/-- Why a command line is refused. -/
inductive UsageError where
  | ambiguous (given : String) (candidates : List String)
  | missingValue (switch : String)
  | uselessValue (switch given : String)
  | notAnInteger (switch given : String)
  | unknownCommand (given : String) (commands : List String)
  | missingPath
  | unrecognized (words : List String)
  deriving DecidableEq, Repr

def UsageError.message : UsageError → String
  | .ambiguous given candidates =>
      "ambiguous option: " ++ given ++ " could match " ++ ", ".intercalate candidates
  | .missingValue switch => "argument " ++ switch ++ ": expected one argument"
  | .uselessValue switch given =>
      "argument " ++ switch ++ ": ignored explicit argument " ++ Text.quoted given
  | .notAnInteger switch given =>
      "argument " ++ switch ++ ": invalid int value: " ++ Text.quoted given
  | .unknownCommand given commands =>
      "argument Command: invalid choice: " ++ Text.quoted given ++
        " (choose from " ++ ", ".intercalate (commands.map Text.quoted) ++ ")"
  | .missingPath => "the following arguments are required: path"
  | .unrecognized words => "unrecognized arguments: " ++ " ".intercalate words

/-- A switch and what it stands for. -/
structure Switch (κ : Type) where
  key : κ
  names : List String
  takesValue : Bool := false
  deriving DecidableEq, Repr

/-- A switch by all its names. -/
def Switch.title (switch : Switch κ) : String :=
  "/".intercalate switch.names

/-- A switch as a word uses it. A value may be attached to it: after `=`, or joined to a short
name. -/
structure Use (κ : Type) where
  switch : Switch κ
  name : String
  attached : Option String
  deriving DecidableEq, Repr

inductive Word (κ : Type) where
  | argument
  | separator
  | switch (use : Use κ)
  | unknownSwitch
  deriving DecidableEq, Repr

/-- The switches with their names, in order of declaration. -/
def namedSwitches (switches : List (Switch κ)) : List (String × Switch κ) :=
  switches.flatMap fun switch => switch.names.map (·, switch)

/-- A word up to its first `=`, and what follows. -/
def splitEquals (word : String) : String × Option String :=
  let name := word.toList.takeWhile (· != '=')
  match word.toList.drop name.length with
  | [] => (word, none)
  | _ :: value => (String.ofList name, some (String.ofList value))

/-- The switches that a shortened long name may mean. -/
def abbreviated (switches : List (Switch κ)) (word : String) : List (Use κ) :=
  let (name, attached) := splitEquals word
  (namedSwitches switches).filterMap fun (full, switch) =>
    if name.toList.isPrefixOf full.toList then some ⟨switch, full, attached⟩ else none

/-- The switch whose short name starts a word. -/
def leading (switches : List (Switch κ)) (word : String) : List (Use κ) :=
  let name := String.ofList (word.toList.take 2)
  let value := String.ofList (word.toList.drop 2)
  ((namedSwitches switches).lookup name).toList.map (⟨·, name, some value⟩)

/-- A negative number is an argument and not a switch. A final line feed does not matter. -/
def isNegativeNumber (word : String) : Bool :=
  let isDigit (c : Char) := (Text.decimalDigit? c).isSome
  match word.toList with
  | '-' :: rest =>
      let rest := if rest.getLast? == some '\n' then rest.dropLast else rest
      let whole := rest.takeWhile isDigit
      match rest.drop whole.length with
      | [] => !whole.isEmpty
      | '.' :: places => !places.isEmpty && places.all isDigit
      | _ => false
  | _ => false

/-- Reads a word before the separator. -/
def readWord (switches : List (Switch κ)) (word : String) : Except UsageError (Word κ) :=
  let named? (name : String) := (namedSwitches switches).lookup name
  match word.toList with
  | '-' :: second :: _ =>
      let (name, attached) := splitEquals word
      match named? word, named? name with
      | some switch, _ => .ok (.switch ⟨switch, word, none⟩)
      | none, some switch => .ok (.switch ⟨switch, name, attached⟩)
      | none, none =>
          let uses := if second == '-' then abbreviated switches word else leading switches word
          match uses with
          | [use] => .ok (.switch use)
          | _ :: _ => .error (.ambiguous word (uses.map (·.name)))
          | [] =>
              if isNegativeNumber word || word.toList.contains ' ' then .ok .argument
              else .ok .unknownSwitch
  | _ => .ok .argument

def readWords (switches : List (Switch κ)) : List String → Except UsageError (List (String × Word κ))
  | [] => .ok []
  | "--" :: rest => .ok (("--", .separator) :: rest.map (·, .argument))
  | word :: rest => do
      let read ← readWord switches word
      return (word, read) :: (← readWords switches rest)

/-- The switches of a word with their values. The last of them may take its value from the word that
follows. -/
structure Cluster (κ : Type) where
  given : List (Switch κ × String) := []
  pending : Option (Switch κ) := none

/-- Takes a switch and the letters that are attached to it apart. After a short switch without a
value the letters are further short switches, all of which have to be known. -/
def cluster (switches : List (Switch κ)) (switch : Switch κ) (name : String) :
    Option (List Char) → Except UsageError (Cluster κ)
  | none =>
      .ok (if switch.takesValue then { pending := some switch } else { given := [(switch, "")] })
  | some letters => joined switch (name.toList.tail.head? != some '-') letters
where
  /-- As `cluster`, for a switch to which letters are attached. -/
  joined (switch : Switch κ) (isShort : Bool) (letters : List Char) :
      Except UsageError (Cluster κ) :=
    let useless : Except UsageError (Cluster κ) :=
      .error (.uselessValue switch.title (String.ofList letters))
    if switch.takesValue then .ok { given := [(switch, String.ofList letters)] }
    else
      match letters with
      | [] => useless
      | letter :: rest =>
          match isShort, (namedSwitches switches).lookup (String.ofList ['-', letter]) with
          | true, some next =>
              if rest.isEmpty then
                if next.takesValue then .ok { given := [(switch, "")], pending := some next }
                else .ok { given := [(switch, ""), (next, "")] }
              else do
                let more ← joined next true rest
                return { more with given := (switch, "") :: more.given }
          | _, _ => useless
  termination_by structural letters

/-- The switches that a word uses. -/
def Use.cluster (switches : List (Switch κ)) (use : Use κ) : Except UsageError (Cluster κ) :=
  Command.cluster switches use.switch use.name (use.attached.map String.toList)

end SlimTemplate.Command
