import SlimTemplate.Config
import SlimTemplate.Erb.Writer
import SlimTemplate.FileTree.Error
import SlimTemplate.FileTree.Resolve
import SlimTemplate.Journal
import SlimTemplate.Text.Utf8
import SlimTemplate.Yaml.Problem

/-!
What can go wrong with a file. Failures are foreseen: they have a type, a message and a path, and
end up in reports. Faults are not: they end whatever was going on.
-/

namespace SlimTemplate

/-- Why a text could not be read from a file. -/
inductive ReadCause where
  | os (e : OsError)
  | decode (e : Text.DecodeError)
  deriving DecidableEq, Repr

def ReadCause.message : ReadCause → String
  | .os e => e.message
  | .decode e => e.message

inductive Failure where
  | notSource (extension : String) (path : Path)
  | missing (path : Path)
  | unreadable (path : Path) (cause : ReadCause)
  | notDirectory (path : Path)
  | unscannable (path : Path) (cause : OsError)
  | directory (path : Path) (cause : OsError)
  | backup (path : Path) (cause : OsError)
  | noAccess (target : Path)
  | write (target : Path) (cause : OsError)
  | deletion (source : Path) (cause : OsError)
  /-- An earlier source of the same run has the same output. -/
  | alreadyProduced (target earlier source : Path)
  | configMissing (path : Path)
  | configUnreadable (path : Path) (cause : OsError)
  | configMalformed (path : Path)
  | configNotMapping (path : Path)
  | config (cause : ConfigError) (path : Option Path)
  deriving Repr

namespace Failure

def type : Failure → IssueType
  | notSource .. => .validation
  | missing _ | unreadable .. | notDirectory _ | unscannable .. => .fileRead
  | directory .. | backup .. | noAccess _ | write .. | deletion .. | alreadyProduced .. => .fileWrite
  | configMissing _ | configUnreadable .. | configMalformed _ | configNotMapping _ | config .. =>
      .configuration

/-- The message of a failure. What is wrong with a malformed configuration file is not told. -/
def message : Failure → String
  | notSource extension _ => "Not a " ++ extension ++ " file"
  | missing path => "Path missing: " ++ path.text
  | unreadable path cause => "Failed to read file " ++ path.text ++ ": " ++ cause.message
  | notDirectory path => "Failed to scan directory " ++ path.text ++ ": not a directory"
  | unscannable path cause => "Failed to scan directory " ++ path.text ++ ": " ++ cause.message
  | directory path cause => "Failed to create directory " ++ path.text ++ ": " ++ cause.message
  | backup _ cause => "Failed to create backup: " ++ cause.message
  | noAccess target => "No write access to " ++ target.parent.text
  | write _ cause => "Atomic write failed: " ++ cause.message
  | deletion _ cause => "Converted, but failed to delete original: " ++ cause.message
  | alreadyProduced target earlier _ =>
      "Output " ++ target.text ++ " already produced from " ++ earlier.text
  | configMissing path => "Config file not found: " ++ path.text
  | configUnreadable path cause => "Cannot read config " ++ path.text ++ ": " ++ cause.message
  | configMalformed path => "Cannot read config " ++ path.text ++ ": <yaml>"
  | configNotMapping path => "Config " ++ path.text ++ " must be a mapping"
  | config cause _ => cause.message

def path? : Failure → Option Path
  | notSource _ path | missing path | unreadable path _ | notDirectory path | unscannable path _
  | directory path _ | backup path _ | noAccess path | write path _ | deletion path _
  | alreadyProduced _ _ path | configMissing path | configUnreadable path _ | configMalformed path
  | configNotMapping path => some path
  | config _ path => path

def toIssue (failure : Failure) : Issue where
  type := failure.type
  message := failure.message
  filePath := failure.path?.map Path.text

end Failure

inductive Fault where
  | os (e : OsError)
  | emptyName (e : Path.EmptyName)
  | resolve (e : ResolveError)
  | overflow (e : Erb.Overflow)
  | decode (e : Text.DecodeError)
  | encode (e : Text.EncodeError)
  | settings (e : ConfigError)
  | document (problem : Yaml.Problem)
  | noAnswer
  /-- A fault of what a run is shown with. -/
  | screen (kind message : String)
  deriving Repr

namespace Fault

/-- The name of the kind of a fault. -/
def kind : Fault → String
  | os _ => "FileSystemError"
  | emptyName _ => "PathError"
  | resolve _ => "ResolveError"
  | overflow _ => "OverflowError"
  | decode _ => "DecodingError"
  | encode _ => "EncodingError"
  | settings _ => "SettingsError"
  | document _ => "DocumentError"
  | noAnswer => "InputError"
  | screen kind _ => kind

def message : Fault → String
  | os e => e.message
  | emptyName e => e.message
  | resolve e => e.message
  | overflow e => e.message
  | decode e => e.message
  | encode e => e.message
  | settings e => e.message
  | document problem => problem.message
  | noAnswer => "EOF when reading a line"
  | screen _ message => message

end Fault

/-- Either kind of trouble. -/
inductive Trouble where
  | failure (failure : Failure)
  | fault (fault : Fault)
  deriving Repr

/-- The trouble with an operation that failed. Whatever the file system answers is foreseen; a path
that cannot even be put to it is not. -/
def Trouble.ofOs (foreseen : OsError → Failure) (e : OsError) : Trouble :=
  if e.errno = .nullByte then .fault (.os e) else .failure (foreseen e)

/-- The trouble with a configuration file of which no value can be read. That it is malformed is
foreseen; other problems are not. -/
def Trouble.ofProblem (path : Path) : Yaml.Problem → Trouble
  | .malformed | .unfinished => .failure (.configMalformed path)
  | problem => .fault (.document problem)

/-- The trouble with the settings of a file. Settings that do not fit are foreseen; keys that cannot
even be listed and values that cannot be shown are not. -/
def Trouble.ofConfigError (path : Option Path) (e : ConfigError) : Trouble :=
  match e with
  | .unshowable | .unlistableKey _ | .unorderedKeys _ | .unknownSetting _ | .reservedSetting
  | .reservedChange => .fault (.settings e)
  | _ => .failure (.config e path)

end SlimTemplate
