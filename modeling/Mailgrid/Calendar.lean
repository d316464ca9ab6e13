/-!
# Dates

A day of the calendar, and a moment of a day, which may tell how far it is
ahead of universal time. Both are read as numbers first; whether the calendar
has such a day, and a day such a moment, is told by `isReal`.
-/

namespace Mailgrid

structure Date where
  year : Nat
  month : Nat
  day : Nat
  deriving DecidableEq

structure Moment where
  date : Date
  hour : Nat
  minute : Nat
  second : Nat
  micro : Nat
  /-- How many minutes ahead of universal time, if that is known. -/
  ahead : Option Int
  deriving DecidableEq

/-- A number with noughts before it, if it is shorter than `width` digits. -/
def paddedNumber (width n : Nat) : String :=
  let digits := toString n
  String.ofList (List.replicate (width - digits.length) '0') ++ digits

namespace Date

def isLeap (year : Nat) : Bool :=
  year % 4 == 0 && (year % 100 != 0 || year % 400 == 0)

def monthLength (year month : Nat) : Nat :=
  if month = 2 then if isLeap year then 29 else 28
  else if month = 4 ∨ month = 6 ∨ month = 9 ∨ month = 11 then 30
  else 31

/-- Is there such a day? Years start at one. -/
def isReal (d : Date) : Bool :=
  1 ≤ d.year && 1 ≤ d.month && d.month ≤ 12 && 1 ≤ d.day && d.day ≤ monthLength d.year d.month

/-- How many days of the calendar come before this one. -/
def daysBefore (d : Date) : Nat :=
  let past := d.year - 1
  365 * past + past / 4 - past / 100 + past / 400 +
    (List.range (d.month - 1)).foldl (fun days m => days + monthLength d.year (m + 1)) 0 +
    (d.day - 1)

def shown (d : Date) : String :=
  paddedNumber 4 d.year ++ "-" ++ paddedNumber 2 d.month ++ "-" ++ paddedNumber 2 d.day

/-- The numbers of a date, without noughts before them. -/
def fields (d : Date) : List String :=
  [toString d.year, toString d.month, toString d.day]

/-- A date as it is shown inside another value. -/
def inner (d : Date) : String :=
  "datetime.date(" ++ ", ".intercalate d.fields ++ ")"

end Date

namespace Moment

/-- The distance from universal time is less than a day. -/
def isReal (m : Moment) : Bool :=
  m.date.isReal && m.hour < 24 && m.minute < 60 && m.second < 60 && m.micro < 1000000 &&
    m.ahead.all fun minutes => minutes.natAbs < 24 * 60

/-- Microseconds since the first day of the calendar, at the place of the moment. -/
def local_ (m : Moment) : Int :=
  (((m.date.daysBefore * 24 + m.hour) * 60 + m.minute) * 60 + m.second) * 1000000 + m.micro

/-- Two moments that both tell their distance from universal time are the same if they are at once;
one that does not is never the same as one that does. -/
def same (a b : Moment) : Bool :=
  match a.ahead, b.ahead with
  | none, none => a == b
  | some x, some y => a.local_ - x * 60000000 == b.local_ - y * 60000000
  | _, _ => false

def shownDistance (minutes : Int) : String :=
  (if minutes < 0 then "-" else "+") ++ paddedNumber 2 (minutes.natAbs / 60) ++ ":" ++
    paddedNumber 2 (minutes.natAbs % 60)

def shown (m : Moment) : String :=
  m.date.shown ++ " " ++ paddedNumber 2 m.hour ++ ":" ++ paddedNumber 2 m.minute ++ ":" ++
    paddedNumber 2 m.second ++ (if m.micro = 0 then "" else "." ++ paddedNumber 6 m.micro) ++
    (match m.ahead with
    | some minutes => shownDistance minutes
    | none => "")

/-- A distance from universal time as it is shown inside another value: whole days, which may be
less than none, and seconds of a day. -/
def innerDistance (minutes : Int) : String :=
  if minutes = 0 then "datetime.timezone.utc"
  else
    "datetime.timezone(datetime.timedelta(" ++ (if minutes < 0 then "days=-1, " else "") ++
      "seconds=" ++ toString ((minutes % 1440) * 60) ++ "))"

/-- A moment as it is shown inside another value; noughts at its end are left out. -/
def inner (m : Moment) : String :=
  let small := if m.micro ≠ 0 then [toString m.second, toString m.micro]
    else if m.second ≠ 0 then [toString m.second] else []
  let distance := match m.ahead with
    | some minutes => ["tzinfo=" ++ innerDistance minutes]
    | none => []
  "datetime.datetime(" ++
    ", ".intercalate (m.date.fields ++ [toString m.hour, toString m.minute] ++ small ++ distance) ++
    ")"

end Moment

end Mailgrid
