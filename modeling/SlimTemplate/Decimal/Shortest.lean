/-!
Decimal text of binary fractions. Of all decimals that are nearer to a number than to any other
number of the format, the one with the fewest digits is written, and of those the nearest. All
comparisons are made on natural numbers.
-/

namespace SlimTemplate.Decimal

/-- The number `mantissa * 2 ^ exponent`. -/
structure Binary where
  mantissa : Nat
  exponent : Int
  deriving DecidableEq, Repr

/-- The decimal `digits * 10 ^ exponent`. -/
structure Numeral where
  digits : Nat
  exponent : Int
  deriving DecidableEq, Repr

/-- Both sides of a comparison of a decimal with a binary number, brought to natural numbers. -/
def sides (d : Numeral) (b : Binary) : Nat × Nat :=
  (d.digits * Nat.pow 10 d.exponent.toNat * Nat.pow 2 (-b.exponent).toNat,
    b.mantissa * Nat.pow 2 b.exponent.toNat * Nat.pow 10 (-d.exponent).toNat)

def Numeral.le (d : Numeral) (b : Binary) : Bool := (sides d b).1 ≤ (sides d b).2
def Numeral.lt (d : Numeral) (b : Binary) : Bool := (sides d b).1 < (sides d b).2
def Numeral.ge (d : Numeral) (b : Binary) : Bool := (sides d b).2 ≤ (sides d b).1
def Numeral.gt (d : Numeral) (b : Binary) : Bool := (sides d b).2 < (sides d b).1

/-- Twice the mantissa, for the points half way to the neighbours: the number itself is four
quarters of its unit, and the lower neighbour of a power of two is only half as far away. -/
def lowerBound (b : Binary) : Binary :=
  let gap := if b.mantissa == Nat.pow 2 52 && b.exponent != -1074 then 1 else 2
  ⟨4 * b.mantissa - gap, b.exponent - 2⟩

def upperBound (b : Binary) : Binary :=
  ⟨4 * b.mantissa + 2, b.exponent - 2⟩

/-- Whether a decimal is read back as the number. The half-way points are read as the number with
the even mantissa. -/
def readsBack (b : Binary) (d : Numeral) : Bool :=
  if b.mantissa % 2 == 0 then d.ge (lowerBound b) && d.le (upperBound b)
  else d.gt (lowerBound b) && d.lt (upperBound b)

/-- The number of decimal digits before the point; negative for zeros after it. -/
def magnitude (b : Binary) : Int :=
  (((List.range 660).map fun (n : Nat) => (n : Int) - 330).find? fun e => Numeral.gt ⟨1, e⟩ b).getD 330

/-- The greatest decimal with the given unit that is not above the number. -/
def floorAt (b : Binary) (unit : Int) : Numeral :=
  let (one, value) := sides ⟨1, unit⟩ b
  ⟨value / one, unit⟩

/-- The nearest decimal with the given unit that is read back as the number, if there is one; of
two equally near ones the even one. -/
def nearestAt? (b : Binary) (unit : Int) : Option Numeral :=
  let below := floorAt b unit
  let above : Numeral := ⟨below.digits + 1, unit⟩
  let middle : Numeral := ⟨2 * below.digits + 1, unit⟩
  let twice : Binary := ⟨b.mantissa, b.exponent + 1⟩
  let preferBelow := middle.gt twice || (!middle.lt twice && below.digits % 2 == 0)
  match readsBack b below, readsBack b above with
  | true, true => some (if preferBelow then below else above)
  | true, false => some below
  | false, true => some above
  | false, false => none

/-- The shortest decimal that is read back as the number. Seventeen digits always suffice. -/
def shortest (b : Binary) : Numeral :=
  let top := magnitude b
  ((List.range 17).findSome? fun n => nearestAt? b (top - (n + 1 : Nat))).getD (floorAt b (top - 17))

/-- Removes trailing zeros from a list of digits. -/
def dropZeros (digits : List Char) : List Char :=
  (digits.reverse.dropWhile (· == '0')).reverse

/-- Exponents have a sign and at least two digits. -/
def exponentText (e : Int) : String :=
  let digits := Nat.toDigits 10 e.natAbs
  "e" ++ (if e < 0 then "-" else "+") ++
    String.ofList (List.replicate (2 - digits.length) '0' ++ digits)

/-- A decimal is written positionally if its point lies after the third zero after the point and
not after the sixteenth digit, and otherwise with an exponent; a whole number keeps one zero after
its point. -/
def Numeral.text (d : Numeral) : String :=
  let all := Nat.toDigits 10 d.digits
  let digits := dropZeros all
  let point : Int := all.length + d.exponent
  if -4 < point && point ≤ 16 then
    if point ≤ 0 then
      "0." ++ String.ofList (List.replicate (-point).toNat '0' ++ digits)
    else
      let n := point.toNat
      let whole := digits.take n
      let fraction := digits.drop n
      String.ofList (whole ++ List.replicate (n - whole.length) '0' ++ ['.'] ++
        if fraction.isEmpty then ['0'] else fraction)
  else
    let fraction := digits.drop 1
    String.ofList (digits.take 1 ++ if fraction.isEmpty then [] else '.' :: fraction) ++
      exponentText (point - 1)

/-- The text of a 64-bit floating-point number given by its bits. -/
def doubleText (bits : UInt64) : String :=
  let n : Nat := bits.toNat
  let sign := if n ≥ Nat.pow 2 63 then "-" else ""
  let exponent : Nat := n / Nat.pow 2 52 % Nat.pow 2 11
  let fraction := n % Nat.pow 2 52
  if exponent == 2047 then
    if fraction == 0 then sign ++ "inf" else "nan"
  else if exponent == 0 && fraction == 0 then sign ++ "0.0"
  else
    let binary : Binary :=
      if exponent == 0 then ⟨fraction, -1074⟩
      else ⟨Nat.pow 2 52 + fraction, (exponent : Int) - 1075⟩
    sign ++ (shortest binary).text

end SlimTemplate.Decimal
