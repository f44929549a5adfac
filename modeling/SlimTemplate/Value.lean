import SlimTemplate.Calendar
import SlimTemplate.Decimal.Shortest
import SlimTemplate.Text.Integer
import SlimTemplate.Text.Ragged

/-!
Values of configuration data, before it is known whether they fit the setting they are given for.
Messages show a value by its text.
-/

namespace SlimTemplate

/-- A collection that stands inside itself. -/
inductive Enclosing where
  | list
  | map
  | orderedMap
  deriving DecidableEq, Repr

/-- A value of a configuration file. A number with a fraction is kept by the bits of its double.
Keys that are lists can no longer be changed and become tuples. Where a collection would stand
inside itself, it is not written out again. -/
inductive Value where
  | null
  | bool (b : Bool)
  | int (n : Int)
  | real (bits : UInt64)
  | text (s : String)
  | ragged (r : Ragged)
  | bytes (data : List UInt8)
  | date (d : Date)
  | moment (m : Moment)
  | tuple (items : List Value)
  | list (items : List Value)
  | map (entries : List (Value × Value))
  | orderedMap (entries : List (Value × Value))
  | set (items : List Value)
  | enclosing (form : Enclosing)
  deriving Repr, Inhabited

namespace Value

def ofFloat (x : Float) : Value :=
  .real x.toBits

def ofText : AnyText → Value
  | .plain s => .text s
  | .ragged r => .ragged r

/-- The text with the given code points. -/
def ofCodePoints (ns : List Nat) : Value :=
  if h : ns.all Nat.isValidChar then .text (Text.ofCodePoints ns)
  else .ragged ⟨ns, Bool.of_not_eq_true h⟩

/-- An integer with more digits than may be read may not be written either. -/
def isShort (n : Int) : Bool :=
  n.natAbs < Nat.pow 10 Text.maxIntegerDigits

def listText (items : List String) : String :=
  "[" ++ ", ".intercalate items ++ "]"

/-- A tuple of one item has a comma after it. -/
def tupleText : List String → String
  | [item] => "(" ++ item ++ ",)"
  | items => "(" ++ ", ".intercalate items ++ ")"

def bracesText (items : List String) : String :=
  "\x7b" ++ ", ".intercalate items ++ "\x7d"

mutual

/-- The text by which messages show a value. -/
def display : Value → String
  | null => "None"
  | bool true => "True"
  | bool false => "False"
  | int n => toString n
  | real bits => Decimal.doubleText bits
  | text s => Text.quoted s
  | ragged r => Text.quotedCodePoints r.codePoints
  | bytes data => Text.quotedBytes data
  | date d => d.text
  | moment m => m.text
  | tuple items => tupleText (displayItems items)
  | list items => listText (displayItems items)
  | map entries => bracesText ((displayEntries entries).map fun (k, v) => k ++ ": " ++ v)
  | orderedMap [] => "ordereddict()"
  | orderedMap entries =>
      "ordereddict(" ++ listText ((displayEntries entries).map fun (k, v) => tupleText [k, v]) ++ ")"
  | set [] => "set()"
  | set items => bracesText (displayItems items)
  | enclosing .list => listText ["..."]
  | enclosing .map => bracesText ["..."]
  | enclosing .orderedMap => "..."

def displayItems : List Value → List String
  | [] => []
  | v :: vs => display v :: displayItems vs

def displayEntries : List (Value × Value) → List (String × String)
  | [] => []
  | (k, v) :: rest => (display k, display v) :: displayEntries rest

end

mutual

/-- Whether a value has a text: no integer in it is too long. -/
def isDisplayable : Value → Bool
  | int n => isShort n
  | tuple items | list items | set items => areDisplayable items
  | map entries | orderedMap entries => haveDisplayable entries
  | _ => true

def areDisplayable : List Value → Bool
  | [] => true
  | v :: vs => isDisplayable v && areDisplayable vs

def haveDisplayable : List (Value × Value) → Bool
  | [] => true
  | (k, v) :: rest => isDisplayable k && isDisplayable v && haveDisplayable rest

end

/-- A value that counts as no value at all: null, false, a zero, or something empty. -/
def isBlank : Value → Bool
  | null | bool false | int 0 | text "" | bytes [] | list [] | map [] | orderedMap [] | set [] => true
  | real bits => bits == 0 || bits == 0x8000000000000000
  | _ => false

/-- The name of the kind of a value. -/
def kindName : Value → String
  | null => "NoneType"
  | bool _ => "bool"
  | int _ => "int"
  | real _ => "float"
  | text _ | ragged _ => "str"
  | bytes _ => "bytes"
  | date _ => "datetime.date"
  | moment _ => "datetime.datetime"
  | tuple _ => "tuple"
  | list _ | enclosing .list => "list"
  | map _ | enclosing .map => "dict"
  | orderedMap _ | enclosing .orderedMap => "ordereddict"
  | set _ => "set"

end Value
end SlimTemplate
