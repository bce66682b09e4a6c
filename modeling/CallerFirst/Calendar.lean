/-!
# Dates and times

Days of the Gregorian calendar from year one on, and moments on them with a time of day and perhaps
an offset from universal time.
-/

namespace CallerFirst

structure Date where
  year : Nat
  month : Nat
  day : Nat
  deriving DecidableEq

structure Moment where
  date : Date
  hour : Nat
  minute : Nat
  second : Nat
  microsecond : Nat
  /-- How far local time is ahead of universal time, in minutes. -/
  offset : Option Int
  deriving DecidableEq

inductive CalendarFault where
  | year (given : Nat)
  | month
  | day
  | hour
  | minute
  | second
  | offset (minutes : Int)
  deriving DecidableEq

def padded (width n : Nat) : String :=
  let digits := Nat.toDigits 10 n
  String.ofList (List.replicate (width - digits.length) '0' ++ digits)

/-- A stretch of time in whole days and the seconds behind them, as messages show it. -/
def inspectMinutes (minutes : Int) : String :=
  let days := minutes / 1440
  let seconds := minutes % 1440 * 60
  let parts :=
    (if days = 0 then [] else ["days=" ++ toString days]) ++
    (if seconds = 0 then [] else ["seconds=" ++ toString seconds])
  "datetime.timedelta(" ++ (if parts.isEmpty then "0" else String.intercalate ", " parts) ++ ")"

namespace CalendarFault

def message : CalendarFault → String
  | year given => "year " ++ toString given ++ " is out of range"
  | month => "month must be in 1..12"
  | day => "day is out of range for month"
  | hour => "hour must be in 0..23"
  | minute => "minute must be in 0..59"
  | second => "second must be in 0..59"
  | offset minutes =>
    "offset must be a timedelta strictly between -timedelta(hours=24) and timedelta(hours=24), not " ++
      inspectMinutes minutes ++ "."

end CalendarFault

namespace Date

def isLeapYear (year : Nat) : Bool :=
  year % 4 == 0 && (year % 100 != 0 || year % 400 == 0)

def daysInMonth (year month : Nat) : Nat :=
  if month = 2 then if isLeapYear year then 29 else 28
  else if month = 4 ∨ month = 6 ∨ month = 9 ∨ month = 11 then 30
  else 31

def fault? (d : Date) : Option CalendarFault :=
  if d.year = 0 then some (.year d.year)
  else if d.month = 0 ∨ 12 < d.month then some .month
  else if d.day = 0 ∨ daysInMonth d.year d.month < d.day then some .day
  else none

def daysBefore (d : Date) : Nat :=
  let years := d.year - 1
  let months := (List.range (d.month - 1)).map fun m => daysInMonth d.year (m + 1)
  years * 365 + years / 4 - years / 100 + years / 400 + months.foldr (· + ·) 0 + (d.day - 1)

def render (d : Date) : String :=
  padded 4 d.year ++ "-" ++ padded 2 d.month ++ "-" ++ padded 2 d.day

def parts (d : Date) : List String :=
  [toString d.year, toString d.month, toString d.day]

def inspect (d : Date) : String :=
  "datetime.date(" ++ String.intercalate ", " d.parts ++ ")"

end Date

namespace Moment

/-- The first thing that is wrong with a moment; the offset comes first. -/
def fault? (t : Moment) : Option CalendarFault :=
  match t.offset.filter fun minutes => 1440 ≤ minutes.natAbs with
  | some minutes => some (.offset minutes)
  | none =>
    match t.date.fault? with
    | some fault => some fault
    | none =>
      if 23 < t.hour then some .hour
      else if 59 < t.minute then some .minute
      else if 59 < t.second then some .second
      else none

def localMicroseconds (t : Moment) : Int :=
  (((t.date.daysBefore * 24 + t.hour) * 60 + t.minute) * 60 + t.second) * 1000000 + t.microsecond

/-- Moments are the same if both lack an offset or both have one, and they name one point in time. -/
def isSame (t u : Moment) : Bool :=
  match t.offset, u.offset with
  | none, none => t.localMicroseconds == u.localMicroseconds
  | some a, some b =>
    t.localMicroseconds - a * 60000000 == u.localMicroseconds - b * 60000000
  | _, _ => false

def renderOffset (minutes : Int) : String :=
  (if minutes < 0 then "-" else "+") ++ padded 2 (minutes.natAbs / 60) ++ ":" ++
    padded 2 (minutes.natAbs % 60)

def render (t : Moment) : String :=
  t.date.render ++ " " ++ padded 2 t.hour ++ ":" ++ padded 2 t.minute ++ ":" ++ padded 2 t.second ++
    (if t.microsecond = 0 then "" else "." ++ padded 6 t.microsecond) ++
    t.offset.elim "" renderOffset

def inspectOffset (minutes : Int) : String :=
  if minutes = 0 then "datetime.timezone.utc"
  else "datetime.timezone(" ++ inspectMinutes minutes ++ ")"

def inspect (t : Moment) : String :=
  let clock :=
    [toString t.hour, toString t.minute] ++
    (if t.second = 0 ∧ t.microsecond = 0 then [] else [toString t.second]) ++
    (if t.microsecond = 0 then [] else [toString t.microsecond])
  let zone := t.offset.elim [] fun minutes => ["tzinfo=" ++ inspectOffset minutes]
  "datetime.datetime(" ++ String.intercalate ", " (t.date.parts ++ clock ++ zone) ++ ")"

end Moment

end CallerFirst
