import SlimTemplate.Decimal.Reading
import SlimTemplate.Text.Lowercase
import SlimTemplate.Value.Order
import SlimTemplate.Yaml.Cursor

/-!
Numbers in YAML. Which plain texts are taken for numbers is one question, what number a text stands
for is another: a tag can demand a number of any text. Version 1.1 also counts in base sixty, with
colons between the parts.
-/

namespace SlimTemplate.Yaml

/-! Which texts are numbers -/

def isDigitOrGap (c : Char) : Bool :=
  c.isDigit || c == '_'

/-- Whether a text is not empty and all its characters pass a test. -/
def consistsOf (test : Char → Bool) (cs : List Char) : Bool :=
  !cs.isEmpty && cs.all test

def isOctalOrGap (c : Char) : Bool :=
  ('0' ≤ c && c ≤ '7') || c == '_'

def isHexOrGap (c : Char) : Bool :=
  c.isDigit || ('a' ≤ c && c ≤ 'f') || ('A' ≤ c && c ≤ 'F') || c == '_'

/-- Whether a text is one or more parts below sixty, each after a colon. -/
def areSixties (cs : List Char) : Bool :=
  match cs.splitOn ':' with
  | [] :: part :: parts =>
      (part :: parts).all fun
        | [d] => d.isDigit
        | [tens, d] => '0' ≤ tens && tens ≤ '5' && d.isDigit
        | _ => false
  | _ => false

/-- Whether a plain text is taken for an integer. -/
def isInteger (version : Version) (text : List Char) : Bool :=
  let body := (Decimal.splitSign text).2
  let isBinary := match body with
    | '0' :: 'b' :: rest => consistsOf (fun c => c == '0' || c == '1' || c == '_') rest
    | _ => false
  let isHex := match body with
    | '0' :: 'x' :: rest => consistsOf isHexOrGap rest
    | _ => false
  let isOther := match version with
    | .v1_2 =>
        consistsOf isDigitOrGap body ||
          match body with
          | '0' :: 'o' :: rest => consistsOf isOctalOrGap rest
          | _ => false
    | .v1_1 =>
        let digits := body.takeWhile isDigitOrGap
        consistsOf isOctalOrGap body ||
          (digits.head?.any (fun c => '1' ≤ c && c ≤ '9') &&
            (digits.length == body.length || areSixties (body.drop digits.length)))
  text.head? != some '_' && (isBinary || isHex || isOther)

/-- Whether a text is an exponent, from its `e` on. -/
def isExponent (needsSign : Bool) : List Char → Bool
  | c :: rest =>
      let digits := (Decimal.splitSign rest).2
      (c == 'e' || c == 'E') && (!needsSign || digits.length < rest.length) &&
        consistsOf Char.isDigit digits
  | [] => false

/-- Whether a plain text is taken for a number with a fraction. -/
def isReal (version : Version) (text : List Char) : Bool :=
  let body := (Decimal.splitSign text).2
  let isSigned := body.length < text.length
  let whole := body.takeWhile isDigitOrGap
  let startsWell := whole.head?.any Char.isDigit
  match body.drop whole.length with
  | '.' :: rest =>
      let places := rest.takeWhile isDigitOrGap
      let tail := rest.drop places.length
      if whole.isEmpty then
        (!places.isEmpty && (version = .v1_2 || !isSigned) && (tail.isEmpty || isExponent true tail)) ||
          ["inf", "Inf", "INF"].contains (String.ofList rest) ||
          (!isSigned && ["nan", "NaN", "NAN"].contains (String.ofList rest))
      else startsWell && (tail.isEmpty || isExponent false tail)
  | tail =>
      startsWell && (isExponent false tail ||
        (version = .v1_1 &&
          let sixties := tail.takeWhile (· != '.')
          areSixties sixties && sixties.length < tail.length &&
            (tail.drop (sixties.length + 1)).all isDigitOrGap))

/-! What numbers they are -/

/-- The characters with the given code points. -/
def characters (text : List Nat) : List Char :=
  (Text.ofCodePoints text).toList

def readInteger (base : Nat) (text : List Nat) : Except Problem Int :=
  (Text.readInteger base (Text.ofCodePoints text)).mapError fun
    | .invalid => .integer base text
    | .tooLong digits => .longInteger digits

/-- A text without gaps, which may not be empty: whether it has a minus, and what follows a sign. -/
def signed (text : List Nat) : Except Problem (Bool × List Nat) :=
  let text := text.filter (· != '_'.toNat)
  let (negative, rest) := Decimal.splitSign (characters text)
  if text.isEmpty then .error .emptyNumber
  else .ok (negative, text.drop (text.length - rest.length))

/-- The number that parts in base sixty make. -/
def sixtiesValue (parts : List Int) : Int :=
  parts.foldl (60 * · + ·) 0

/-- The integer that a text stands for. -/
def integerValue (version : Version) (text : List Nat) : Except Problem Int := do
  let (negative, body) ← signed text
  let size ←
    match characters body with
    | ['0'] => pure 0
    | '0' :: 'b' :: _ => readInteger 2 (body.drop 2)
    | '0' :: 'x' :: _ => readInteger 16 (body.drop 2)
    | '0' :: 'o' :: _ => readInteger 8 (body.drop 2)
    | cs =>
        if version = .v1_2 then readInteger 10 body
        else if cs.isEmpty then throw .emptyNumber
        else if cs.head? == some '0' then readInteger 8 body
        else if cs.contains ':' then
          sixtiesValue <$> (body.splitOn ':'.toNat).mapM (readInteger 10)
        else readInteger 10 body
  return if negative then -size else size

def readReal (text : List Nat) : Except Problem Float :=
  match Decimal.readDouble? (Text.ofCodePoints text) with
  | some x => .ok x
  | none => .error (.real text)

/-- Adds parts in base sixty to a sum, the first part counting `unit`. A unit of more than all
doubles is refused. -/
def addSixties (sum : Float) (unit : Nat) : List Float → Except Problem Float
  | [] => .ok sum
  | part :: parts =>
      let scale := Float.ofScientific unit false 0
      if scale == 1.0 / 0.0 then .error .parts
      else addSixties (sum + part * scale) (60 * unit) parts

/-- A text in lower case. What stands between characters and is none has no case. -/
def lowerCase (text : List Nat) : List Nat :=
  (text.splitBy fun m n => decide m.isValidChar == decide n.isValidChar).flatMap fun run =>
    if run.all (·.isValidChar) then (Text.lower (Text.ofCodePoints run)).toList.map Char.toNat
    else run

/-- The number with a fraction that a text stands for. The case of letters does not count. -/
def realValue (version : Version) (text : List Nat) : Except Problem Value := do
  let (negative, body) ← signed (lowerCase text)
  let cs := characters body
  if String.ofList cs == ".nan" then return .real Value.spelledNotNumber
  let size ←
    if String.ofList cs == ".inf" then pure (1.0 / 0.0)
    else if version = .v1_1 && cs.contains ':' then
      addSixties 0.0 1 (← (body.splitOn ':'.toNat).mapM readReal).reverse
    else if version = .v1_1 && (cs.filter (· == 'e')).length > 1 then throw .exponents
    else readReal body
  let value := if negative then -size else size
  return if value.isNaN then .real 0x7ff8000000000000 else .ofFloat value

end SlimTemplate.Yaml
