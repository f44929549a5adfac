import SlimTemplate.Erb.Options
import SlimTemplate.Value.Order

/-!
Configuration of a conversion. A draft gives every setting some value; checking a draft gives
settings of the right kinds, or the first that does not fit. The order of the checks is fixed and
is not that of the fields. An engine is made with settings, and works with them if their texts are
strings; what it would do with other texts is left out.
-/

namespace SlimTemplate

/-- The settings of a conversion. -/
inductive Setting where
  | indentSize
  | emitComments
  | closeStatements
  | voidElements
  | createBackup
  | deleteSource
  | outputDirectory
  | extension
  deriving DecidableEq, Repr

namespace Setting

def name : Setting → String
  | indentSize => "indent_size"
  | emitComments => "emit_comments"
  | closeStatements => "close_statements"
  | voidElements => "void_elements"
  | createBackup => "create_backup"
  | deleteSource => "delete_original"
  | outputDirectory => "output_directory"
  | extension => "extension"

def all : List Setting :=
  [indentSize, emitComments, closeStatements, voidElements, createBackup, deleteSource,
   outputDirectory, extension]

def ofName? (s : String) : Option Setting :=
  all.find? (·.name == s)

end Setting

/-- Why a configuration is refused. -/
inductive ConfigError where
  | indentSize (given : Value)
  | extension (given : Value)
  | flag (setting : Setting) (given : Value)
  | outputDirectory (given : Value)
  /-- A value that does not fit, and is too long to be shown. -/
  | unshowable
  /-- Keys that name no setting, in order. -/
  | unknownKeys (source : String) (keys : List String)
  /-- A key that is not a text names no setting and cannot be listed either. -/
  | unlistableKey (kind : String)
  /-- Unknown keys that cannot be put in order. -/
  | unorderedKeys (cause : Value.OrderError)
  /-- A setting given by name that does not exist. -/
  | unknownSetting (name : String)
  /-- A setting given by the name that is kept for the configuration itself. -/
  | reservedSetting
  /-- A change given by that name. -/
  | reservedChange
  deriving Repr

/-- The name that is kept for the configuration itself. -/
def reservedName : String := "self"

def ConfigError.message : ConfigError → String
  | .indentSize given => "indent_size must be a positive integer, got " ++ given.display
  | .extension given => "extension must start with '.', got " ++ given.display
  | .flag setting given => setting.name ++ " must be true or false, got " ++ given.display
  | .outputDirectory given => "output_directory must be a path string, got " ++ given.display
  | .unshowable => Text.unshowableInteger
  | .unknownKeys source keys =>
      "Unknown config key(s) in " ++ source ++ ": " ++ ", ".intercalate keys
  | .unlistableKey kind => "sequence item 0: expected str instance, " ++ kind ++ " found"
  | .unorderedKeys cause => cause.message
  | .unknownSetting name =>
      "ConversionConfig.__init__() got an unexpected keyword argument " ++ Text.quoted name
  | .reservedSetting =>
      "ConversionConfig.__init__() got multiple values for argument " ++ Text.quoted reservedName
  | .reservedChange =>
      "ConversionConfig.with_overrides() got multiple values for argument " ++
        Text.quoted reservedName

/-- Refuses a value: with the error that shows it, if it can be shown. -/
def ConfigError.refuse (given : Value) (error : Value → ConfigError) : Except ConfigError α :=
  .error (if given.isDisplayable then error given else .unshowable)

/-- The settings of a conversion, each of the right kind. -/
structure Settings where
  indentSize : Nat := 1
  emitComments : Bool := true
  closeStatements : Bool := true
  voidElements : Bool := false
  createBackup : Bool := true
  deleteSource : Bool := false
  outputDirectory : Option AnyText := none
  extension : AnyText := ".slim"
  indentSize_pos : 0 < indentSize := by decide
  extension_dotted : extension.IsDotted := by decide
  deriving Repr

/-- The settings where nothing else is asked for. -/
def Settings.standard : Settings := {}

/-- A value for every setting. -/
abbrev Draft := Setting → Value

def Draft.set (draft : Draft) (setting : Setting) (value : Value) : Draft :=
  fun other => if other = setting then value else draft other

namespace Settings

def toDraft (settings : Settings) : Draft
  | .indentSize => .int settings.indentSize
  | .emitComments => .bool settings.emitComments
  | .closeStatements => .bool settings.closeStatements
  | .voidElements => .bool settings.voidElements
  | .createBackup => .bool settings.createBackup
  | .deleteSource => .bool settings.deleteSource
  | .outputDirectory => (settings.outputDirectory.map Value.ofText).getD .null
  | .extension => .ofText settings.extension

def checkIndentSize : Value → Except ConfigError { n : Nat // 0 < n }
  | .int (.ofNat (n + 1)) => .ok ⟨n + 1, Nat.succ_pos n⟩
  | given => ConfigError.refuse given .indentSize

/-- A text with a dot in front. -/
def checkDotted (text : AnyText) : Except ConfigError { text : AnyText // text.IsDotted } :=
  if h : text.IsDotted then .ok ⟨text, h⟩ else .error (.extension (.ofText text))

def checkExtension : Value → Except ConfigError { text : AnyText // text.IsDotted }
  | .text s => checkDotted s
  | .ragged r => checkDotted (.ragged r)
  | given => ConfigError.refuse given .extension

def checkFlag (setting : Setting) : Value → Except ConfigError Bool
  | .bool b => .ok b
  | given => ConfigError.refuse given (.flag setting)

def checkDirectory : Value → Except ConfigError (Option AnyText)
  | .null => .ok none
  | .text s => .ok (some s)
  | .ragged r => .ok (some (.ragged r))
  | given => ConfigError.refuse given .outputDirectory

/-- Checks the settings in order: indentation, extension, the flags, the output directory. -/
def ofDraft (draft : Draft) : Except ConfigError Settings := do
  let ⟨indentSize, indentSize_pos⟩ ← checkIndentSize (draft .indentSize)
  let ⟨extension, extension_dotted⟩ ← checkExtension (draft .extension)
  let emitComments ← checkFlag .emitComments (draft .emitComments)
  let closeStatements ← checkFlag .closeStatements (draft .closeStatements)
  let voidElements ← checkFlag .voidElements (draft .voidElements)
  let createBackup ← checkFlag .createBackup (draft .createBackup)
  let deleteSource ← checkFlag .deleteSource (draft .deleteSource)
  let outputDirectory ← checkDirectory (draft .outputDirectory)
  return { indentSize, emitComments, closeStatements, voidElements, createBackup, deleteSource,
           outputDirectory, extension, indentSize_pos, extension_dotted }

/-- The defaults with the given settings changed. -/
def draftOf (changes : List (Setting × Value)) : Draft :=
  changes.foldl (fun draft (setting, value) => draft.set setting value) Settings.standard.toDraft

/-- The settings with the given ones changed; a null changes nothing. -/
def override (settings : Settings) (changes : List (Setting × Value)) :
    Except ConfigError Settings :=
  ofDraft (changes.foldl
    (fun draft (setting, value) =>
      match value with
      | .null => draft
      | value => draft.set setting value)
    settings.toDraft)

/-- Settings given by name. -/
def findNamed : List (String × Value) → Except ConfigError (List (Setting × Value))
  | [] => .ok []
  | (name, value) :: rest =>
      match Setting.ofName? name with
      | some setting => ((setting, value) :: ·) <$> findNamed rest
      | none => .error (if name = reservedName then .reservedSetting else .unknownSetting name)

/-- The settings with some changed by name. A null changes nothing, whatever its name, except that
the reserved name is refused first of all. -/
def overrideByName (settings : Settings) (entries : List (String × Value)) :
    Except ConfigError Settings := do
  if entries.any (·.1 == reservedName) then throw .reservedChange
  let given := entries.filter fun
    | (_, .null) => false
    | _ => true
  settings.override (← findNamed given)

def options (settings : Settings) : Erb.Options where
  indentSize := settings.indentSize
  emitComments := settings.emitComments
  closeStatements := settings.closeStatements
  voidElements := settings.voidElements
  indentSize_pos := settings.indentSize_pos

/-- Sources are deleted without a copy being kept. -/
def isUnrecoverable (settings : Settings) : Bool :=
  settings.deleteSource && !settings.createBackup

/-- A key of a mapping: the setting it names, or the key itself if it names none. -/
def readKey : Value → Except Value Setting
  | .text name => (Setting.ofName? name).elim (.error (.text name)) .ok
  | key => .error key

/-- The error for keys that name no setting. Texts are listed in order; of other keys the first in
order is named, if they have an order. -/
def unknownKeysError (source : String) (keys : List Value) : ConfigError :=
  let texts := keys.filterMap Value.listed?
  match keys with
  | key :: rest =>
      if texts.length == keys.length then .unknownKeys source (texts.mergeSort (· ≤ ·))
      else
        match Value.least key rest with
        | .ok first => .unlistableKey first.kindName
        | .error cause => .unorderedKeys cause
  | [] => .unknownKeys source []

/-- Reads settings from the entries of a mapping, which comes from the given source. Unknown keys
are refused before any value is looked at. -/
def ofMapping (source : String) (entries : List (Value × Value)) : Except ConfigError Settings :=
  let keys := entries.map fun (key, value) => (readKey key, value)
  let unknown := keys.filterMap fun
    | (.error key, _) => some key
    | (.ok _, _) => none
  if unknown.isEmpty then
    ofDraft (draftOf (keys.filterMap fun
      | (.ok setting, value) => some (setting, value)
      | (.error _, _) => none))
  else .error (unknownKeysError source unknown)

end Settings

/-- What sources are converted with: settings whose texts are strings. -/
structure Config where
  indentSize : Nat := 1
  emitComments : Bool := true
  closeStatements : Bool := true
  voidElements : Bool := false
  createBackup : Bool := true
  deleteSource : Bool := false
  outputDirectory : Option String := none
  extension : String := ".slim"
  indentSize_pos : 0 < indentSize := by decide
  extension_dotted : extension.toList.head? = some '.' := by decide
  deriving Repr

/-- The configuration where nothing else is asked for. -/
def Config.standard : Config := {}

def Config.options (config : Config) : Erb.Options where
  indentSize := config.indentSize
  emitComments := config.emitComments
  closeStatements := config.closeStatements
  voidElements := config.voidElements
  indentSize_pos := config.indentSize_pos

/-- Settings, and the options of the writer that is made with them. -/
structure Engine where
  settings : Settings
  options : Erb.Options

namespace Engine

/-- All settings are checked when an engine is made, and the indentation once more when its writer
is. -/
def ofDraft (draft : Draft) : Except ConfigError Engine := do
  let settings ← Settings.ofDraft draft
  let ⟨indentSize, indentSize_pos⟩ ← Settings.checkIndentSize (draft .indentSize)
  return ⟨settings, { settings.options with indentSize, indentSize_pos }⟩

/-- The engine for the defaults with settings changed by name. -/
def ofNamed (entries : List (String × Value)) : Except ConfigError Engine := do
  ofDraft (Settings.draftOf (← Settings.findNamed entries))

def config (engine : Engine) : Except Text.EncodeError Config :=
  match hextension : engine.settings.extension with
  | .ragged r => .error r.encodeError
  | .plain extension => do
      let outputDirectory ← engine.settings.outputDirectory.mapM AnyText.characters
      return {
        indentSize := engine.options.indentSize
        emitComments := engine.options.emitComments
        closeStatements := engine.options.closeStatements
        voidElements := engine.options.voidElements
        createBackup := engine.settings.createBackup
        deleteSource := engine.settings.deleteSource
        outputDirectory
        extension
        indentSize_pos := engine.options.indentSize_pos
        extension_dotted := by
          have hdotted := engine.settings.extension_dotted
          rw [hextension] at hdotted
          exact hdotted }

end Engine
end SlimTemplate
