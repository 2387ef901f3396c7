import LiterateRuby.Number.Decimal

/-! # Dates and times

A calendar date, and a date with a time of day that may carry microseconds and an offset from
universal time. Each has a plain text and a display form that spells out its parts.
-/

namespace LiterateRuby

/-- A natural number in decimal with leading zeros up to a width. -/
def padded (width n : Nat) : String :=
  let digits := Number.natDigits n
  String.ofList (List.replicate (width - digits.length) '0' ++ digits)

structure Date where
  year : Nat
  month : Nat
  day : Nat
  deriving DecidableEq, Repr

namespace Date

def isLeap (year : Nat) : Bool := year % 4 == 0 && (year % 100 != 0 || year % 400 == 0)

def monthLength (year month : Nat) : Nat :=
  if month = 2 then (if isLeap year then 29 else 28)
  else if month = 4 ∨ month = 6 ∨ month = 9 ∨ month = 11 then 30
  else 31

/-- The date with these parts, if the calendar has it. -/
def ofParts? (year month day : Nat) : Option Date :=
  if 1 ≤ year ∧ year ≤ 9999 ∧ 1 ≤ month ∧ month ≤ 12 ∧ 1 ≤ day ∧ day ≤ monthLength year month then
    some ⟨year, month, day⟩
  else none

/-- Year, month and day with hyphens. -/
def text (date : Date) : String :=
  padded 4 date.year ++ "-" ++ padded 2 date.month ++ "-" ++ padded 2 date.day

def parts (date : Date) : List String := [date.year, date.month, date.day].map toString

def display (date : Date) : String := "datetime.date(" ++ ", ".intercalate date.parts ++ ")"

end Date

/-- A date with a time of day; `offset` is in seconds east of universal time. -/
structure Timestamp where
  date : Date
  hour : Nat
  minute : Nat
  second : Nat
  microsecond : Nat
  offset : Option Int
  deriving DecidableEq, Repr

namespace Timestamp

/-- The timestamp with these parts, if clock and offset allow it. -/
def ofParts? (date : Date) (hour minute second microsecond : Nat) (offset : Option Int) :
    Option Timestamp :=
  let inDay : Bool := match offset with
    | some seconds => -86400 < seconds && seconds < 86400
    | none => true
  if hour < 24 ∧ minute < 60 ∧ second < 60 ∧ microsecond < 1000000 ∧ inDay then
    some ⟨date, hour, minute, second, microsecond, offset⟩
  else none

/-- An offset as signed hours and minutes, with seconds if there are any. -/
def offsetText (offset : Int) : String :=
  let seconds := offset.natAbs
  let hourMinute := padded 2 (seconds / 3600) ++ ":" ++ padded 2 (seconds / 60 % 60)
  let rest := if seconds % 60 = 0 then "" else ":" ++ padded 2 (seconds % 60)
  (if offset < 0 then "-" else "+") ++ hourMinute ++ rest

/-- Date and time of day, with microseconds and offset if there are any. -/
def text (time : Timestamp) : String :=
  let clock := padded 2 time.hour ++ ":" ++ padded 2 time.minute ++ ":" ++ padded 2 time.second
  let fraction := if time.microsecond = 0 then "" else "." ++ padded 6 time.microsecond
  let zone := match time.offset with
    | some offset => offsetText offset
    | none => ""
  time.date.text ++ " " ++ clock ++ fraction ++ zone

/-- An offset spelled out as a span of days and seconds. -/
def offsetDisplay (offset : Int) : String :=
  if offset = 0 then "datetime.timezone.utc"
  else
    let days := offset.fdiv 86400
    let seconds := offset.fmod 86400
    let parts :=
      (if days = 0 then [] else ["days=" ++ Number.intText days]) ++
        (if seconds = 0 then [] else ["seconds=" ++ Number.intText seconds])
    "datetime.timezone(datetime.timedelta(" ++ ", ".intercalate parts ++ "))"

/-- The timestamp with its parts spelled out; trailing zero seconds and microseconds are left
out. -/
def display (time : Timestamp) : String :=
  let clock := [time.hour, time.minute].map toString
  let seconds :=
    if time.microsecond ≠ 0 then [time.second, time.microsecond].map toString
    else if time.second ≠ 0 then [toString time.second]
    else []
  let zone := match time.offset with
    | some offset => ["tzinfo=" ++ offsetDisplay offset]
    | none => []
  "datetime.datetime(" ++ ", ".intercalate (time.date.parts ++ clock ++ seconds ++ zone) ++ ")"

end Timestamp

end LiterateRuby
