import CallerFirst.Yaml.Fault

/-!
# Dates and times as text

A date is year, month and day with dashes; a moment has a time of day behind it, and perhaps a
fraction of the second and an offset.
-/

namespace CallerFirst.Yaml

/-- Digits at the front of a text, at least and at most so many, and what follows. -/
def digitGroup? (least most : Nat) (text : List Char) : Option (List Char × List Char) :=
  let digits := (text.take most).takeWhile Char.isDigit
  if digits.length < least then none else some (digits, text.drop digits.length)

def behind? (c : Char) : List Char → Option (List Char)
  | d :: rest => if c == d then some rest else none
  | [] => none

structure DateText where
  year : List Char
  month : List Char
  day : List Char

namespace DateText

def read? (text : List Char) : Option (DateText × List Char) := do
  let (year, rest) ← digitGroup? 4 4 text
  let (month, rest) ← digitGroup? 1 2 (← behind? '-' rest)
  let (day, rest) ← digitGroup? 1 2 (← behind? '-' rest)
  return (⟨year, month, day⟩, rest)

def toDate (d : DateText) : Date :=
  ⟨Binary64.digitsValue d.year, Binary64.digitsValue d.month, Binary64.digitsValue d.day⟩

def isFull (d : DateText) : Bool :=
  d.month.length == 2 && d.day.length == 2

end DateText

def isOver (text : List Char) : Bool :=
  text == [] || text == ['\n']

def clock? (text : List Char) : Option ((Nat × Nat × Nat) × List Char) := do
  let (hour, rest) ← digitGroup? 1 2 text
  let (minute, rest) ← digitGroup? 2 2 (← behind? ':' rest)
  let (second, rest) ← digitGroup? 2 2 (← behind? ':' rest)
  return ((Binary64.digitsValue hour, Binary64.digitsValue minute, Binary64.digitsValue second), rest)

/-- Microseconds of a fraction of the second; further places do not count. -/
def microseconds (places : List Char) : Nat :=
  let places := places.take 6
  Binary64.digitsValue (places ++ List.replicate (6 - places.length) '0')

def fraction : List Char → Nat × List Char
  | '.' :: rest => (microseconds (rest.takeWhile Char.isDigit), rest.dropWhile Char.isDigit)
  | rest => (0, rest)

/-- Hours and perhaps minutes of an offset, in minutes. -/
def offset? (text : List Char) : Option Nat := do
  let (hours, rest) ← digitGroup? 1 2 text
  if isOver rest then return 60 * Binary64.digitsValue hours
  let (minutes, rest) ← digitGroup? 2 2 (← behind? ':' rest)
  if isOver rest then return 60 * Binary64.digitsValue hours + Binary64.digitsValue minutes
  none

/-- The offset at the end of a moment: none, universal time, or hours and minutes with a sign. -/
def zone? (text : List Char) : Option (Option Int) :=
  if isOver text then some none
  else
    match text.dropWhile isBlankInTime with
    | 'Z' :: rest => if isOver rest then some (some 0) else none
    | '+' :: rest => (offset? rest).map fun minutes => some minutes
    | '-' :: rest => (offset? rest).map fun minutes => some (-minutes)
    | _ => none
where
  isBlankInTime (c : Char) : Bool := c == ' ' || c == '\t'

def behindDate? : List Char → Option (List Char)
  | 'T' :: rest | 't' :: rest => some rest
  | ' ' :: rest | '\t' :: rest => some (rest.dropWhile fun c => c == ' ' || c == '\t')
  | _ => none

def moment? (date : Date) (text : List Char) : Option Moment := do
  let ((hour, minute, second), rest) ← clock? (← behindDate? text)
  let (microsecond, rest) := fraction rest
  let offset ← zone? rest
  return { date, hour, minute, second, microsecond, offset }

/-- A text looks like a date or a moment; without a time the date has to be full. -/
def isTimestamp (text : List Char) : Bool :=
  match DateText.read? text with
  | some (date, rest) =>
    if isOver rest then date.isFull else (moment? date.toDate rest).isSome
  | none => false

def timestampValue (text : List Char) : Except Fault Value :=
  match DateText.read? text with
  | none => .error .notTimestamp
  | some (date, rest) =>
    let date := date.toDate
    if isOver rest then
      match date.fault? with
      | some fault => .error (.calendar fault)
      | none => .ok (.date date)
    else
      match moment? date rest with
      | none => .error .notTimestamp
      | some moment =>
        match moment.fault? with
        | some fault => .error (.calendar fault)
        | none => .ok (.moment moment)

end CallerFirst.Yaml
