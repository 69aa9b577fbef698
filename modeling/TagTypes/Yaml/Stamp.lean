import TagTypes.Yaml.Scalar

/-!
# Written dates and moments

A date is written as year, month and day with strokes between them. A time may follow after the letter T or after blanks, then a fraction of a second and how far the clock is ahead of universal time.
-/

namespace TagTypes.Yaml

/-- A text without the line end at its end. -/
def dropLineEnd (cs : List Char) : List Char := if cs.getLast? = some '\n' then cs.dropLast else cs

/-- The time on a clock: its digits, and the digits after the point. -/
structure Clock where
  hour : Nat
  minute : Nat
  second : Nat
  fraction : List Char
  ahead : Option Int

structure Stamp where
  date : Date
  /-- Month and day have two digits. -/
  isPadded : Bool
  clock : Option Clock

namespace Stamp

-- the instance of the core library, also where another one is imported
attribute [local instance (high)] instPowNat

def digitsValue (cs : List Char) : Nat := Text.ofDigits 10 (cs.map fun c => c.toNat - 48)

/-- A number of `least` to `most` digits at the beginning of a text; no digit follows it. -/
def number? (least most : Nat) (cs : List Char) : Option (List Char × List Char) :=
  let digits := cs.takeWhile Char.isDigit
  if least ≤ digits.length && digits.length ≤ most then some (digits, cs.drop digits.length) else none

def mark? (mark : Char) : List Char → Option (List Char)
  | c :: cs => if c = mark then some cs else none
  | [] => none

/-- The part that tells how many minutes the clock is ahead. -/
def ahead? (cs : List Char) : Option (Option Int) :=
  match cs.dropWhile Scalar.isBlank with
  | [] => if cs.isEmpty then some none else none
  | ['Z'] => some (some 0)
  | sign :: rest => do
    guard (sign = '+' || sign = '-')
    let (hours, rest) ← number? 1 2 rest
    let minutes ← match rest with
      | [] => some []
      | ':' :: rest => do
        let (minutes, rest) ← number? 2 2 rest
        if rest.isEmpty then some minutes else none
      | _ => none
    return some (Text.signed (sign = '-') (digitsValue hours * 60 + digitsValue minutes))

def clock? (cs : List Char) : Option Clock := do
  let (hour, cs) ← number? 1 2 cs
  let (minute, cs) ← number? 2 2 (← mark? ':' cs)
  let (second, cs) ← number? 2 2 (← mark? ':' cs)
  let (fraction, cs) := match cs with
    | '.' :: rest => (rest.takeWhile Char.isDigit, rest.dropWhile Char.isDigit)
    | cs => ([], cs)
  let ahead ← ahead? cs
  return ⟨digitsValue hour, digitsValue minute, digitsValue second, fraction, ahead⟩

/-- The time after a date, if there is one. -/
def time? : List Char → Option (Option Clock)
  | [] => some none
  | c :: cs =>
    if c = 'T' || c = 't' then (clock? cs).map some
    else if Scalar.isBlank c then (clock? (cs.dropWhile Scalar.isBlank)).map some
    else none

def read? (cs : List Char) : Option Stamp := do
  let (year, cs) ← number? 4 4 cs
  let (month, cs) ← number? 1 2 (← mark? '-' cs)
  let (day, cs) ← number? 1 2 (← mark? '-' cs)
  let clock ← time? cs
  return ⟨⟨digitsValue year, digitsValue month, digitsValue day⟩, month.length = 2 && day.length = 2, clock⟩

/-- Whether the form alone makes a plain scalar a date or a moment. -/
def isFull (s : Stamp) : Bool := s.isPadded || s.clock.isSome

/-- Millionths of a second from the digits of a fraction; further digits do not count. -/
def micros (fraction : List Char) : Nat :=
  let digits := fraction.take 6
  digitsValue digits * 10 ^ (6 - digits.length)

def value (s : Stamp) : Except CalendarFault (Date ⊕ Moment) :=
  match s.clock with
  | none => (Calendar.checkDate s.date).map .inl
  | some k =>
    (Calendar.checkMoment ⟨s.date, k.hour, k.minute, k.second, micros k.fraction, k.ahead⟩).map .inr

end Stamp

end TagTypes.Yaml
