import SlimTemplate.Text.Blank

/-!
Integers as they are typed on a command line: an optional sign and digits of any script, with single
underscores allowed between digits and blanks around the whole. Other bases than ten may be
announced by a zero and a letter.
-/

namespace SlimTemplate.Text

/-- The code points of the decimal zeros; the nine digits of each script follow its zero. -/
def decimalZeros : List Nat :=
  [0x30, 0x660, 0x6f0, 0x7c0, 0x966, 0x9e6, 0xa66, 0xae6, 0xb66, 0xbe6, 0xc66, 0xce6, 0xd66, 0xde6,
   0xe50, 0xed0, 0xf20, 0x1040, 0x1090, 0x17e0, 0x1810, 0x1946, 0x19d0, 0x1a80, 0x1a90, 0x1b50,
   0x1bb0, 0x1c40, 0x1c50, 0xa620, 0xa8d0, 0xa900, 0xa9d0, 0xa9f0, 0xaa50, 0xabf0, 0xff10, 0x104a0,
   0x10d30, 0x11066, 0x110f0, 0x11136, 0x111d0, 0x112f0, 0x11450, 0x114d0, 0x11650, 0x116c0,
   0x11730, 0x118e0, 0x11950, 0x11c50, 0x11d50, 0x11da0, 0x16a60, 0x16ac0, 0x16b50, 0x1d7ce,
   0x1d7d8, 0x1d7e2, 0x1d7ec, 0x1d7f6, 0x1e140, 0x1e2f0, 0x1e950, 0x1fbf0]

def decimalDigit? (c : Char) : Option Nat :=
  (decimalZeros.find? fun z => z ≤ c.toNat && c.toNat < z + 10).map (c.toNat - ·)

/-- The value of a digit of a base: a decimal digit of any script, or a letter from `a` on. -/
def digit? (base : Nat) (c : Char) : Option Nat :=
  let letter? :=
    if 'a' ≤ c && c ≤ 'z' then some (c.toNat - 87)
    else if 'A' ≤ c && c ≤ 'Z' then some (c.toNat - 55)
    else none
  ((decimalDigit? c).or letter?).filter (· < base)

/-- A decimal integer with more digits than this is refused. -/
def maxIntegerDigits : Nat := 4300

/-- What is said of an integer that has more digits than can be shown. -/
def unshowableInteger : String :=
  "Exceeds the limit (" ++ toString maxIntegerDigits ++ " digits) for integer string " ++
    "conversion; use sys.set_int_max_str_digits() to increase the limit"

/-- Why a text is no integer. -/
inductive IntegerError where
  | invalid
  /-- It has too many digits. -/
  | tooLong (digits : Nat)
  deriving DecidableEq, Repr

/-- Whether underscores stand alone between digits. -/
def gapsAreSingle : List Char → Bool
  | [] => true
  | ['_'] => false
  | '_' :: '_' :: _ => false
  | _ :: cs => gapsAreSingle cs

/-- The number of a text of digits, which may be separated by single underscores. The length of a
run of digits is looked at before what follows it. -/
def readNatural (base : Nat) (cs : List Char) : Except IntegerError Nat :=
  let run := cs.takeWhile fun c => c == '_' || (digit? base c).isSome
  let digits := run.filterMap (digit? base)
  if run.isEmpty || run.head? == some '_' || !gapsAreSingle run then .error .invalid
  else if base == 10 && digits.length > maxIntegerDigits then .error (.tooLong digits.length)
  else if run.length < cs.length then .error .invalid
  else .ok (digits.foldl (base * · + ·) 0)

/-- The letter that, after a zero, may announce the digits of a base. -/
def baseLetter? : Nat → Option Char
  | 2 => some 'b'
  | 8 => some 'o'
  | 16 => some 'x'
  | _ => none

/-- The digits of a numeral without the announcement of its base, after which an underscore may
stand. -/
def dropBase (base : Nat) : List Char → List Char
  | '0' :: c :: cs =>
      if some c.toLower == baseLetter? base then if cs.head? == some '_' then cs.tail else cs
      else '0' :: c :: cs
  | cs => cs

/-- An integer with digits of the given base. -/
def readInteger (base : Nat) (s : String) : Except IntegerError Int :=
  match trim s.toList with
  | '-' :: cs => (readNatural base (dropBase base cs)).map fun n => -(n : Int)
  | '+' :: cs => (readNatural base (dropBase base cs)).map Int.ofNat
  | cs => (readNatural base (dropBase base cs)).map Int.ofNat

def integer? (s : String) : Option Int :=
  (readInteger 10 s).toOption

end SlimTemplate.Text
