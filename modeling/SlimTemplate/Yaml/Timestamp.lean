import SlimTemplate.Value

/-!
Timestamps in YAML: a day, or a day with a time of day, a fraction of a second and a time zone.
-/

namespace SlimTemplate.Yaml

structure TimeOfDay where
  hour : Nat
  minute : Nat
  second : Nat
  /-- The digits after the point of the seconds. -/
  fraction : List Nat := []
  zone : Option Zone := none

structure Timestamp where
  date : Date
  time : Option TimeOfDay := none

/-- A number of between `least` and `most` digits, and what follows it. -/
def field? (least most : Nat) (text : List Char) : Option (Nat × List Char) :=
  let digits := (text.takeWhile Char.isDigit).take most
  if digits.length < least then none
  else some (digits.foldl (fun n c => 10 * n + (c.toNat - 48)) 0, text.drop digits.length)

def after? (mark : Char) : List Char → Option (List Char)
  | c :: rest => if c == mark then some rest else none
  | [] => none

def isBlankChar (c : Char) : Bool :=
  c == ' ' || c == '\t'

/-- The time zone that a text names: `Z`, or hours and perhaps minutes with a sign. -/
def zone? (text : List Char) : Option Zone :=
  match text with
  | ['Z'] => some ⟨0, "Z"⟩
  | sign :: rest => do
      if sign != '+' && sign != '-' then none
      let (hours, rest) ← field? 1 2 rest
      let (minutes, rest) ←
        if rest.isEmpty then some (0, []) else do field? 2 2 (← after? ':' rest)
      if !rest.isEmpty then none
      let offset : Int := 3600 * hours + 60 * minutes
      return ⟨if sign == '-' then -offset else offset, String.ofList text⟩
  | [] => none

/-- The time of day after a day, from the mark between them on. -/
def timeOfDay? (text : List Char) : Option TimeOfDay := do
  let text ←
    match text with
    | 'T' :: rest | 't' :: rest => some rest
    | c :: rest => if isBlankChar c then some (rest.dropWhile isBlankChar) else none
    | [] => none
  let (hour, rest) ← field? 1 2 text
  let (minute, rest) ← field? 2 2 (← after? ':' rest)
  let (second, rest) ← field? 2 2 (← after? ':' rest)
  let (digits, rest) :=
    match rest with
    | '.' :: rest => rest.span Char.isDigit
    | rest => ([], rest)
  let fraction := digits.map fun c => c.toNat - 48
  if rest.isEmpty then return { hour, minute, second, fraction }
  let zone ← zone? (rest.dropWhile isBlankChar)
  return { hour, minute, second, fraction, zone := some zone }

def timestamp? (text : List Char) : Option Timestamp := do
  let (year, rest) ← field? 4 4 text
  let (month, rest) ← field? 1 2 (← after? '-' rest)
  let (day, rest) ← field? 1 2 (← after? '-' rest)
  let date : Date := ⟨year, month, day⟩
  if rest.isEmpty then return { date }
  return { date, time := some (← timeOfDay? rest) }

/-- Whether a plain text is taken for a timestamp. A day alone has to have all its digits. -/
def isTimestamp (text : List Char) : Bool :=
  (timestamp? text).any fun stamp => stamp.time.isSome || text.length == 10

/-- The first six digits of a fraction, rounded by the seventh: millionths, up to a million. -/
def millionths (fraction : List Nat) : Nat :=
  let kept := ((fraction ++ List.replicate 6 0).take 6).foldl (10 * · + ·) 0
  kept + if (fraction.drop 6).head?.any (4 < ·) then 1 else 0

/-- The value of a timestamp. A time zone is checked first. -/
def Timestamp.value (stamp : Timestamp) : Except CalendarError Value := do
  match stamp.time with
  | none =>
      stamp.date.check
      return .date stamp.date
  | some time =>
      if let some zone := time.zone then zone.check
      let microsecond := millionths time.fraction
      let moment : Moment := {
        date := stamp.date
        hour := time.hour
        minute := time.minute
        second := time.second
        microsecond := if microsecond < 1000000 then microsecond else 0
        zone := time.zone }
      moment.check
      if microsecond < 1000000 then return .moment moment
      return .moment (← moment.next)

end SlimTemplate.Yaml
