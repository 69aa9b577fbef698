import TagTypes.Text.Digit

/-!
# Dates and moments

A date is a day of the calendar in use today, from the year 1 to the year 9999. A moment is a time on such a day, to the microsecond, and may say how many minutes it is ahead of universal time. Two moments that say so are the same if they are the same in universal time.
-/

namespace TagTypes.Yaml

structure Date where
  year : Nat
  month : Nat
  day : Nat
  deriving DecidableEq, Repr, Inhabited

structure Moment where
  date : Date
  hour : Nat
  minute : Nat
  second : Nat
  micros : Nat
  ahead : Option Int
  deriving DecidableEq, Repr, Inhabited

inductive CalendarFault where
  | year (year : Nat)
  | month
  | day
  | hour
  | minute
  | second
  | ahead (minutes : Int)
  deriving DecidableEq, Repr

namespace Calendar

def isLeap (year : Nat) : Bool := year % 4 = 0 && (year % 100 ≠ 0 || year % 400 = 0)

def daysIn (year month : Nat) : Nat :=
  if month = 2 then if isLeap year then 29 else 28
  else if month = 4 || month = 6 || month = 9 || month = 11 then 30
  else 31

def checkDate (d : Date) : Except CalendarFault Date :=
  if d.year < 1 || 9999 < d.year then .error (.year d.year)
  else if d.month < 1 || 12 < d.month then .error .month
  else if d.day < 1 || daysIn d.year d.month < d.day then .error .day
  else .ok d

/-- A moment may be ahead of universal time or behind it by less than a day. -/
def checkAhead (minutes : Int) : Except CalendarFault Unit :=
  if minutes.natAbs < 24 * 60 then .ok () else .error (.ahead minutes)

def checkMoment (m : Moment) : Except CalendarFault Moment := do
  if let some minutes := m.ahead then checkAhead minutes
  let _ ← checkDate m.date
  if 23 < m.hour then throw .hour
  if 59 < m.minute then throw .minute
  if 59 < m.second then throw .second
  return m

/-- `n` with at least `width` digits. -/
def padded (width n : Nat) : String :=
  let digits := Text.natDigits n
  String.ofList (List.replicate (width - digits.length) '0' ++ digits)

/-- A span of time in days and seconds, of which the seconds are not negative. -/
def spanLiteral (minutes : Int) : String :=
  let days := minutes.fdiv 1440
  let seconds := minutes.fmod 1440 * 60
  let parts := (if days = 0 then [] else ["days=" ++ Text.intText days]) ++
    (if seconds = 0 then [] else ["seconds=" ++ Text.intText seconds])
  "datetime.timedelta(" ++ (if parts.isEmpty then "0" else String.intercalate ", " parts) ++ ")"

end Calendar

def CalendarFault.message : CalendarFault → String
  | .year y => "year " ++ Text.natText y ++ " is out of range"
  | .month => "month must be in 1..12"
  | .day => "day is out of range for month"
  | .hour => "hour must be in 0..23"
  | .minute => "minute must be in 0..59"
  | .second => "second must be in 0..59"
  | .ahead m =>
    "offset must be a timedelta strictly between -timedelta(hours=24) and timedelta(hours=24), not " ++
      Calendar.spanLiteral m ++ "."

def Date.text (d : Date) : String :=
  Calendar.padded 4 d.year ++ "-" ++ Calendar.padded 2 d.month ++ "-" ++ Calendar.padded 2 d.day

/-- The number of days since the first of March of the year 0. -/
def Date.dayNumber (d : Date) : Nat :=
  let year := if d.month < 3 then d.year - 1 else d.year
  let month := if d.month < 3 then d.month + 9 else d.month - 3
  365 * year + year / 4 - year / 100 + year / 400 + (153 * month + 2) / 5 + d.day

namespace Moment

def aheadText (minutes : Int) : String :=
  (if minutes < 0 then "-" else "+") ++ Calendar.padded 2 (minutes.natAbs / 60) ++ ":" ++
    Calendar.padded 2 (minutes.natAbs % 60)

def text (m : Moment) : String :=
  m.date.text ++ " " ++ Calendar.padded 2 m.hour ++ ":" ++ Calendar.padded 2 m.minute ++ ":" ++
    Calendar.padded 2 m.second ++ (if m.micros = 0 then "" else "." ++ Calendar.padded 6 m.micros) ++
    (m.ahead.elim "" aheadText)

/-- The minutes since the beginning of the calendar in universal time. -/
def universalMinutes (m : Moment) (ahead : Int) : Int :=
  ((m.date.dayNumber * 24 + m.hour) * 60 + m.minute : Nat) - ahead

def same (a b : Moment) : Bool :=
  match a.ahead, b.ahead with
  | some i, some j => a.universalMinutes i = b.universalMinutes j && a.second = b.second && a.micros = b.micros
  | _, _ => a = b

def aheadLiteral (minutes : Int) : String :=
  ", tzinfo=datetime.timezone" ++ if minutes = 0 then ".utc" else "(" ++ Calendar.spanLiteral minutes ++ ")"

end Moment

/-- The form in which a date stands inside the text of a list or a map. -/
def Date.literal (d : Date) : String :=
  "datetime.date(" ++ String.intercalate ", " ([d.year, d.month, d.day].map Text.natText) ++ ")"

def Moment.literal (m : Moment) : String :=
  let small := if m.micros = 0 then if m.second = 0 then [] else [m.second] else [m.second, m.micros]
  "datetime.datetime(" ++
    String.intercalate ", " (([m.date.year, m.date.month, m.date.day, m.hour, m.minute] ++ small).map Text.natText) ++
    m.ahead.elim "" aheadLiteral ++ ")"

end TagTypes.Yaml
