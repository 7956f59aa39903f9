import CwlDescriptor.Number.IntegerText
set_option autoImplicit false

/-!
# Dates and times

Documents may hold dates and times of the proleptic Gregorian calendar, the latter with or without
an offset from universal time.

## Main definitions

* `Date`, `TimeOfDay`: the two parts of a moment.
* `Date.isValid`, `TimeOfDay.isValid`: the ranges of their fields.
* `Date.iso`, `TimeOfDay.iso`: the international standard notation.
* `instant`: the number of microseconds before a moment, for the comparison across offsets.
-/

namespace CwlDescriptor

/-- A day of the calendar. -/
structure Date where
  year : Nat
  month : Nat
  day : Nat
deriving DecidableEq, Repr

/-- A time of day, with an optional offset from universal time in minutes. -/
structure TimeOfDay where
  hour : Nat
  minute : Nat
  second : Nat
  microsecond : Nat
  offset : Option Int
deriving DecidableEq, Repr

/-- The decimal digits of a number, with zeros in front up to the given width. -/
def padded (width n : Nat) : List Char :=
  let digits := Integer.digits n
  List.replicate (width - digits.length) '0' ++ digits

/-- A comma separated list of numbers. -/
def commaSeparated (numbers : List Nat) : String :=
  ", ".intercalate (numbers.map fun n => String.ofList (Integer.digits n))

namespace Date

/-- A year is a leap year if it is a multiple of four, but not of a hundred unless of 400. -/
def isLeap (year : Nat) : Bool :=
  year % 4 = 0 && (year % 100 ≠ 0 || year % 400 = 0)

/-- The number of days of a month. -/
def daysInMonth (year month : Nat) : Nat :=
  if month = 2 then (if isLeap year then 29 else 28)
  else if month = 4 || month = 6 || month = 9 || month = 11 then 30 else 31

/-- The years go from 1 to 9999, and month and day exist. -/
def isValid (d : Date) : Bool :=
  1 ≤ d.year && d.year ≤ 9999 && 1 ≤ d.month && d.month ≤ 12 && 1 ≤ d.day &&
    d.day ≤ daysInMonth d.year d.month

/-- The number of days before a date, from the first day of the year 1 on. -/
def dayNumber (d : Date) : Nat :=
  let y := d.year - 1
  let before := (List.range (d.month - 1)).foldl (fun n m => n + daysInMonth d.year (m + 1)) 0
  365 * y + y / 4 - y / 100 + y / 400 + before + (d.day - 1)

/-- Year, month and day joined by hyphens. -/
def iso (d : Date) : List Char :=
  padded 4 d.year ++ '-' :: padded 2 d.month ++ '-' :: padded 2 d.day

end Date

namespace TimeOfDay

/-- The fields are in range; the offset is less than a day. -/
def isValid (t : TimeOfDay) : Bool :=
  t.hour < 24 && t.minute < 60 && t.second < 60 &&
    match t.offset with
    | none => true
    | some offset => offset.natAbs < 1440

/-- The offset as a sign, hours and minutes. -/
def offsetText (offset : Int) : List Char :=
  (if offset < 0 then '-' else '+') ::
    padded 2 (offset.natAbs / 60) ++ ':' :: padded 2 (offset.natAbs % 60)

/-- Hour, minute and second joined by colons, the fraction if it is not zero, and the offset. -/
def iso (t : TimeOfDay) : List Char :=
  padded 2 t.hour ++ ':' :: padded 2 t.minute ++ ':' :: padded 2 t.second ++
    (if t.microsecond = 0 then [] else '.' :: padded 6 t.microsecond) ++
    match t.offset with
    | none => []
    | some offset => offsetText offset

end TimeOfDay

/-- The number of microseconds before a moment, in universal time if the offset is taken off. -/
def instant (d : Date) (t : TimeOfDay) (offset : Int) : Int :=
  let minutes : Int := (d.dayNumber * 24 + t.hour) * 60 + t.minute - offset
  (minutes * 60 + t.second) * 1000000 + t.microsecond

/-- How a date is shown inside a list or a map. -/
def Date.call (d : Date) : String :=
  "datetime.date(" ++ commaSeparated [d.year, d.month, d.day] ++ ")"

/-- How an offset is shown: whole days, and the rest of it in seconds. -/
def offsetCall (offset : Int) : String :=
  if offset = 0 then "datetime.timezone.utc"
  else if 0 < offset then
    "datetime.timezone(datetime.timedelta(seconds=" ++ Integer.text (offset * 60) ++ "))"
  else
    "datetime.timezone(datetime.timedelta(days=-1, seconds=" ++
      Integer.text (86400 + offset * 60) ++ "))"

/-- How a moment is shown inside a list or a map; seconds and microseconds only if needed. -/
def TimeOfDay.call (d : Date) (t : TimeOfDay) : String :=
  let seconds :=
    if t.microsecond ≠ 0 then [t.second, t.microsecond]
    else if t.second ≠ 0 then [t.second] else []
  let offset := match t.offset with
    | none => ""
    | some offset => ", tzinfo=" ++ offsetCall offset
  "datetime.datetime(" ++
    commaSeparated ([d.year, d.month, d.day, t.hour, t.minute] ++ seconds) ++ offset ++ ")"

end CwlDescriptor
