import SlimTemplate.Text.Quoted

/-!
Days of the calendar, and moments with a time of day and perhaps a time zone. A day and a moment are
checked field by field; the first field that does not fit is named.
-/

namespace SlimTemplate

structure Date where
  year : Nat
  month : Nat
  day : Nat
  deriving DecidableEq, Repr

/-- A time zone: how many seconds it is ahead of universal time, and how it is written. -/
structure Zone where
  offset : Int
  name : String
  deriving DecidableEq, Repr

structure Moment where
  date : Date
  hour : Nat
  minute : Nat
  second : Nat
  microsecond : Nat
  zone : Option Zone := none
  deriving DecidableEq, Repr

/-- Why fields are no day, no moment or no time zone. -/
inductive CalendarError where
  | year (given : Nat)
  | month
  | day
  | hour
  | minute
  | second
  /-- A time zone is less than a day away from universal time. -/
  | offset (given : Int)
  /-- The calendar ends. -/
  | outOfRange
  deriving DecidableEq, Repr

def secondsOfDay : Nat := 86400

/-- The text of a span of time: whole days, and the seconds beyond them. -/
def spanText (seconds : Int) : String :=
  let days := Int.fdiv seconds secondsOfDay
  let rest := Int.fmod seconds secondsOfDay
  let fields :=
    (if days = 0 then [] else ["days=" ++ toString days]) ++
    (if rest = 0 then [] else ["seconds=" ++ toString rest])
  "datetime.timedelta(" ++ (if fields.isEmpty then "0" else ", ".intercalate fields) ++ ")"

def CalendarError.message : CalendarError → String
  | .year given => "year " ++ toString given ++ " is out of range"
  | .month => "month must be in 1..12"
  | .day => "day is out of range for month"
  | .hour => "hour must be in 0..23"
  | .minute => "minute must be in 0..59"
  | .second => "second must be in 0..59"
  | .offset given =>
      "offset must be a timedelta strictly between -timedelta(hours=24) and timedelta(hours=24)" ++
        ", not " ++ spanText given ++ "."
  | .outOfRange => "date value out of range"

namespace Date

def lastYear : Nat := 9999

def isLeap (year : Nat) : Bool :=
  year % 4 == 0 && (year % 100 != 0 || year % 400 == 0)

def daysOfMonth (year month : Nat) : Nat :=
  if month == 2 then if isLeap year then 29 else 28
  else if [4, 6, 9, 11].contains month then 30
  else 31

def check (d : Date) : Except CalendarError Unit :=
  if d.year == 0 || lastYear < d.year then .error (.year d.year)
  else if d.month == 0 || 12 < d.month then .error .month
  else if d.day == 0 || daysOfMonth d.year d.month < d.day then .error .day
  else .ok ()

def next (d : Date) : Except CalendarError Date :=
  if d.day < daysOfMonth d.year d.month then .ok { d with day := d.day + 1 }
  else if d.month < 12 then .ok ⟨d.year, d.month + 1, 1⟩
  else if d.year < lastYear then .ok ⟨d.year + 1, 1, 1⟩
  else .error .outOfRange

/-- The number of days before a day, from the start of the calendar on. -/
def ordinal (d : Date) : Nat :=
  let years := d.year - 1
  365 * years + years / 4 - years / 100 + years / 400 +
    ((List.range (d.month - 1)).map fun n => daysOfMonth d.year (n + 1)).foldl (· + ·) 0 +
    (d.day - 1)

def fields (d : Date) : List Nat :=
  [d.year, d.month, d.day]

def text (d : Date) : String :=
  "datetime.date(" ++ ", ".intercalate (d.fields.map toString) ++ ")"

end Date

namespace Zone

def check (z : Zone) : Except CalendarError Unit :=
  if z.offset.natAbs < secondsOfDay then .ok () else .error (.offset z.offset)

def text (z : Zone) : String :=
  "datetime.timezone(" ++ spanText z.offset ++ ", " ++ Text.quoted z.name ++ ")"

end Zone

namespace Moment

def check (m : Moment) : Except CalendarError Unit := do
  m.date.check
  if 23 < m.hour then throw .hour
  if 59 < m.minute then throw .minute
  if 59 < m.second then throw .second

/-- One second later. -/
def next (m : Moment) : Except CalendarError Moment :=
  if m.second < 59 then .ok { m with second := m.second + 1 }
  else if m.minute < 59 then .ok { m with minute := m.minute + 1, second := 0 }
  else if m.hour < 23 then .ok { m with hour := m.hour + 1, minute := 0, second := 0 }
  else m.date.next.map fun date => { m with date, hour := 0, minute := 0, second := 0 }

/-- The microseconds since the start of the calendar, in universal time if the zone is known. -/
def instant (m : Moment) : Int :=
  let seconds : Int := secondsOfDay * m.date.ordinal + 3600 * m.hour + 60 * m.minute + m.second
  1000000 * (seconds - m.zone.elim 0 Zone.offset) + m.microsecond

/-- The text of a moment: seconds and microseconds are left out when they are zero. -/
def text (m : Moment) : String :=
  let small := ([m.second, m.microsecond].reverse.dropWhile (· == 0)).reverse
  let fields := m.date.fields ++ [m.hour, m.minute] ++ small
  "datetime.datetime(" ++ ", ".intercalate (fields.map toString) ++
    m.zone.elim "" (", tzinfo=" ++ ·.text) ++ ")"

end Moment
end SlimTemplate
