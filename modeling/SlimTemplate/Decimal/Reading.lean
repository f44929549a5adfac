import SlimTemplate.Decimal.Shortest
import SlimTemplate.Text.Integer

/-!
Reading decimal text as a binary fraction: the number of the format that is nearest to the decimal.
-/

namespace SlimTemplate.Decimal

/-- The double that is nearest to a decimal. Decimals far outside the range of doubles are not
computed. -/
def Numeral.toDouble (d : Numeral) : Float :=
  let size := ((Nat.toDigits 10 d.digits).length : Int) + d.exponent
  if d.digits == 0 || size < -400 then 0.0
  else if size > 400 then 1.0 / 0.0
  else Float.ofScientific d.digits (d.exponent < 0) d.exponent.natAbs

/-- The number that decimal digits of any script stand for; zero if there are none. -/
def digitsValue (cs : List Char) : Nat :=
  (cs.filterMap Text.decimalDigit?).foldl (10 * · + ·) 0

/-- The digits at the start of a text, and what follows them. -/
def spanDigits (cs : List Char) : List Char × List Char :=
  cs.span fun c => (Text.decimalDigit? c).isSome

/-- A sign, if there is one: whether it is a minus, and what follows it. -/
def splitSign : List Char → Bool × List Char
  | '-' :: rest => (true, rest)
  | '+' :: rest => (false, rest)
  | text => (false, text)

/-- An exponent, from its `e` on; nothing stands for no exponent. -/
def exponent? : List Char → Option Int
  | [] => some 0
  | c :: rest =>
      if c != 'e' && c != 'E' then none
      else
        let (negative, rest) := splitSign rest
        match spanDigits rest with
        | ([], _) | (_, _ :: _) => none
        | (digits, []) => some (if negative then -(digitsValue digits : Int) else digitsValue digits)

/-- A number without a sign: digits with a point among them or beside them, and an exponent. -/
def numeral? (cs : List Char) : Option Numeral :=
  let (whole, rest) := spanDigits cs
  let (places, rest) :=
    match rest with
    | '.' :: rest => spanDigits rest
    | rest => ([], rest)
  if whole.isEmpty && places.isEmpty then none
  else (exponent? rest).map fun exponent => ⟨digitsValue (whole ++ places), exponent - places.length⟩

/-- A number as it is typed, with a sign and blanks around it; infinity and the value that is not a
number are spelled out in letters of any case. -/
def readDouble? (s : String) : Option Float :=
  let (negative, cs) := splitSign (Text.trim s.toList)
  let word := String.ofList (cs.map Char.toLower)
  let size? :=
    if word == "inf" || word == "infinity" then some (1.0 / 0.0)
    else if word == "nan" then some (Float.ofBits 0x7ff8000000000000)
    else (numeral? cs).map Numeral.toDouble
  size?.map fun size => if negative then -size else size

end SlimTemplate.Decimal
