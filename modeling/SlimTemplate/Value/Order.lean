import SlimTemplate.Value

/-!
Keys of mappings: which are the same, and how they are put in order. Numbers of different kinds are
compared exactly; only keys of like kinds have an order.
-/

namespace SlimTemplate.Value

/-- The size of a number. A finite one is counted in units so small that every double is a whole
number of them. -/
inductive Size where
  | finite (units : Int)
  | infinite (negative : Bool)
  | undefined
  deriving DecidableEq, Repr

/-- The exponent of the unit in which sizes are counted. -/
def unitExponent : Nat := 1074

def Size.ofInt (n : Int) : Size :=
  .finite (n * (Nat.pow 2 unitExponent : Nat))

def Size.ofDouble (bits : UInt64) : Size :=
  let n : Nat := bits.toNat
  let negative := n ≥ Nat.pow 2 63
  let exponent : Nat := n / Nat.pow 2 52 % Nat.pow 2 11
  let fraction : Nat := n % Nat.pow 2 52
  if exponent = 2047 then if fraction = 0 then .infinite negative else .undefined
  else
    let units : Nat :=
      if exponent = 0 then fraction else (Nat.pow 2 52 + fraction) * Nat.pow 2 (exponent - 1)
    .finite (if negative then -(units : Int) else units)

namespace Size

/-- Nothing is equal to what is not a number. -/
def equals : Size → Size → Bool
  | finite m, finite n => m == n
  | infinite a, infinite b => a == b
  | _, _ => false

def below : Size → Size → Bool
  | finite m, finite n => m < n
  | infinite true, finite _ => true
  | finite _, infinite false => true
  | infinite true, infinite false => true
  | _, _ => false

end Size

/-- The size of a number; a truth value counts as one or zero. -/
def size? : Value → Option Size
  | bool b => some (.ofInt (if b then 1 else 0))
  | int n => some (.ofInt n)
  | real bits => some (.ofDouble bits)
  | _ => none

/-- The one value, not a number, that is the same as itself: the one that a file spells as such. -/
def spelledNotNumber : UInt64 := 0xfff8000000000000

/-- Whether two moments are the same instant, which cannot be said if only one has a zone. -/
def sameMoment (m n : Moment) : Bool :=
  m.zone.isSome == n.zone.isSome && m.instant == n.instant

mutual

/-- Whether two keys are the same. -/
def sameKey : Value → Value → Bool
  | null, null => true
  | text s, text t => s == t
  | ragged s, ragged t => s == t
  | bytes s, bytes t => s == t
  | date d, date e => d == e
  | moment m, moment n => sameMoment m n
  | tuple items, tuple others => sameKeys items others
  | real a, real b =>
      (a == b && a == spelledNotNumber) || (Size.ofDouble a).equals (Size.ofDouble b)
  | a, b =>
      match size? a, size? b with
      | some x, some y => x.equals y
      | _, _ => false

def sameKeys : List Value → List Value → Bool
  | [], [] => true
  | a :: as, b :: bs => sameKey a b && sameKeys as bs
  | _, _ => false

end

/-- Why two keys have no order. -/
inductive OrderError where
  | kinds (left right : String)
  | dayAndMoment
  /-- Only one of two moments has a zone. -/
  | zones
  deriving DecidableEq, Repr

def OrderError.message : OrderError → String
  | kinds left right =>
      "'<' not supported between instances of '" ++ left ++ "' and '" ++ right ++ "'"
  | dayAndMoment => "can't compare datetime.datetime to datetime.date"
  | zones => "can't compare offset-naive and offset-aware datetimes"

/-- The code points of a text. -/
def codePoints? : Value → Option (List Nat)
  | text s => some (s.toList.map Char.toNat)
  | ragged r => some r.codePoints
  | _ => none

/-- A text as it is listed: a code point that is no character is replaced. -/
def listed? (key : Value) : Option String :=
  key.codePoints?.map Text.ofCodePoints

mutual

/-- Whether a key comes before another. -/
def precedes : Value → Value → Except OrderError Bool
  | bytes s, bytes t => .ok (s < t)
  | date d, date e => .ok (d.fields < e.fields)
  | moment m, moment n =>
      if m.zone.isSome == n.zone.isSome then .ok (m.instant < n.instant) else .error .zones
  | date _, moment _ | moment _, date _ => .error .dayAndMoment
  | tuple items, tuple others => precede items others
  | a, b =>
      match size? a, size? b, codePoints? a, codePoints? b with
      | some x, some y, _, _ => .ok (x.below y)
      | _, _, some s, some t => .ok (s < t)
      | _, _, _, _ => .error (.kinds a.kindName b.kindName)

/-- Tuples are ordered by the first items in which they differ. -/
def precede : List Value → List Value → Except OrderError Bool
  | _, [] => .ok false
  | [], _ :: _ => .ok true
  | a :: as, b :: bs => if sameKey a b then precede as bs else precedes a b

end

/-- The first of the keys, if they can be put in order: every key is compared with the one before
it. -/
def least : Value → List Value → Except OrderError Value
  | first, [] => .ok first
  | first, key :: rest => do
      if ← precedes key first then least key rest else least first rest

end SlimTemplate.Value
