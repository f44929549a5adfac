import SlimTemplate.Calendar
import SlimTemplate.Text.Integer

/-!
What keeps a YAML text from having a value. Most problems are not told apart; those that lie in the
value of a scalar or in the use of a key are. Scalars are quoted by their code points.
-/

namespace SlimTemplate.Yaml

inductive Problem where
  /-- The text is no document, or a document of which no value can be made. -/
  | malformed
  /-- The text ends inside something. -/
  | unfinished
  /-- A version of the language that is not known. -/
  | version (minor : Nat)
  /-- A key stands twice in an ordered mapping. -/
  | repeatedKey
  /-- A key stands twice in a mapping, with something that is too long to be shown. -/
  | unshowable
  /-- A key that can still be changed. -/
  | changeableKey (kind : String)
  | truth (word : List Nat)
  | emptyNumber
  | integer (base : Nat) (text : List Nat)
  | longInteger (digits : Nat)
  | real (text : List Nat)
  /-- A number with more than one exponent. -/
  | exponents
  /-- A number with too many parts in base sixty. -/
  | parts
  | calendar (cause : CalendarError)
  /-- An escape for a code point that does not exist. -/
  | codePoint (n : Nat)
  deriving DecidableEq, Repr

/-- Quotes are cut off after this many characters. -/
def maxQuoteLength : Nat := 200

def Problem.message : Problem → String
  | malformed | unfinished => "<yaml>"
  | version minor =>
      "version minor part can only be 2 or 1, got (1, " ++ toString minor ++ ")"
  | repeatedKey => ""
  | unshowable => Text.unshowableInteger
  | changeableKey kind => "unhashable type: '" ++ kind ++ "'"
  | truth word => Text.quotedCodePoints word
  | emptyNumber => "string index out of range"
  | integer base text =>
      "invalid literal for int() with base " ++ toString base ++ ": " ++
        String.ofList ((Text.quotedCodePoints text).toList.take maxQuoteLength)
  | longInteger digits =>
      "Exceeds the limit (" ++ toString Text.maxIntegerDigits ++ " digits) for integer string " ++
        "conversion: value has " ++ toString digits ++
        " digits; use sys.set_int_max_str_digits() to increase the limit"
  | real text => "could not convert string to float: " ++ Text.quotedCodePoints text
  | exponents => "too many values to unpack (expected 2)"
  | parts => "int too large to convert to float"
  | calendar cause => cause.message
  | codePoint n =>
      if n < Nat.pow 2 31 then "chr() arg not in range(0x110000)"
      else "Python int too large to convert to C int"

end SlimTemplate.Yaml
