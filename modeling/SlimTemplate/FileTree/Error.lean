import SlimTemplate.Text.Quoted

/-!
Errors of the file system, with the numbers and texts of Linux. Two errors are no answers of the
file system and have no number: a path with a null byte is refused before it is asked, and a copy
that would go to a name with a slash after it finds that there is no such directory.
-/

namespace SlimTemplate

inductive Errno where
  | noEntry
  | busy
  | alreadyExists
  | notDirectory
  | isDirectory
  | nameTooLong
  | linkLoop
  | nullByte
  | noDirectory
  deriving DecidableEq, Repr

namespace Errno

def number? : Errno → Option Nat
  | noEntry => some 2
  | busy => some 16
  | alreadyExists => some 17
  | notDirectory => some 20
  | isDirectory => some 21
  | nameTooLong => some 36
  | linkLoop => some 40
  | nullByte | noDirectory => none

def text : Errno → String
  | noEntry => "No such file or directory"
  | busy => "Device or resource busy"
  | alreadyExists => "File exists"
  | notDirectory => "Not a directory"
  | isDirectory => "Is a directory"
  | nameTooLong => "File name too long"
  | linkLoop => "Too many levels of symbolic links"
  | nullByte => "embedded null byte"
  | noDirectory => "Directory does not exist"

end Errno

/-- A failed operation: the cause, the path as the operation was given it and, for a renaming, the
path it was to be renamed to. -/
structure OsError where
  errno : Errno
  path : String
  target : Option String := none
  deriving DecidableEq, Repr

def OsError.message (e : OsError) : String :=
  match e.errno.number? with
  | none => if e.errno = .noDirectory then e.errno.text ++ ": " ++ e.path else e.errno.text
  | some number =>
      "[Errno " ++ toString number ++ "] " ++ e.errno.text ++ ": " ++ Text.quoted e.path ++
        match e.target with
        | some target => " -> " ++ Text.quoted target
        | none => ""

end SlimTemplate
