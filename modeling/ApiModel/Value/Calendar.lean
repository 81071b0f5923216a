import ApiModel.Text.Numeral

namespace ApiModel

open Text

structure Date where
  year : Nat
  month : Nat
  day : Nat
  deriving DecidableEq

/-- A time of a day, with the minutes that its clock is ahead of universal time if they are known. -/
structure Moment where
  date : Date
  hour : Nat
  minute : Nat
  second : Nat
  microsecond : Nat
  offset : Option Int
  deriving DecidableEq

inductive CalendarFault
  | year (n : Nat)
  | month
  | day
  | hour
  | minute
  | second
  | offset (minutes : Int)
  deriving DecidableEq

def durationText (minutes : Int) : String :=
  let days := Int.fdiv minutes 1440
  let seconds := Int.fmod minutes 1440 * 60
  let part (label : String) (n : Int) : List String :=
    if n = 0 then [] else [label ++ "=" ++ String.ofList (intDigits n)]
  let parts := part "days" days ++ part "seconds" seconds
  "datetime.timedelta(" ++ (if parts.isEmpty then "0" else ", ".intercalate parts) ++ ")"

def CalendarFault.message : CalendarFault → String
  | year n => "year " ++ String.ofList (natDigits n) ++ " is out of range"
  | month => "month must be in 1..12"
  | day => "day is out of range for month"
  | hour => "hour must be in 0..23"
  | minute => "minute must be in 0..59"
  | second => "second must be in 0..59"
  | offset minutes => "offset must be a timedelta strictly between -timedelta(hours=24) and " ++
      "timedelta(hours=24), not " ++ durationText minutes ++ "."

namespace Date

def isLeap (year : Nat) : Bool := year % 4 = 0 && (year % 100 ≠ 0 || year % 400 = 0)

def daysInMonth (year month : Nat) : Nat :=
  if month = 2 then (if isLeap year then 29 else 28)
  else if month = 4 || month = 6 || month = 9 || month = 11 then 30
  else 31

def make (year month day : Nat) : Except CalendarFault Date :=
  if year = 0 || 9999 < year then .error (.year year)
  else if month = 0 || 12 < month then .error .month
  else if day = 0 || daysInMonth year month < day then .error .day
  else .ok ⟨year, month, day⟩

/-- Days since the first of January of the year 1, both months and leap days counted. -/
def ordinal (d : Date) : Nat :=
  let y := d.year - 1
  y * 365 + y / 4 - y / 100 + y / 400 +
    (List.range (d.month - 1)).foldl (fun n m => n + daysInMonth d.year (m + 1)) 0 + d.day

def iso (d : Date) : String :=
  paddedNat 4 d.year ++ "-" ++ paddedNat 2 d.month ++ "-" ++ paddedNat 2 d.day

end Date

namespace Moment

/-- The moment, if there is one with these numbers; the offset is looked at first. -/
def make (year month day hour minute second microsecond : Nat) (offset : Option Int) :
    Except CalendarFault Moment :=
  match offset.filter fun m => 1440 ≤ m.natAbs with
  | some m => .error (.offset m)
  | none => match Date.make year month day with
    | .error e => .error e
    | .ok date =>
      if 23 < hour then .error .hour
      else if 59 < minute then .error .minute
      else if 59 < second then .error .second
      else .ok ⟨date, hour, minute, second, microsecond, offset⟩

/-- The minutes since a fixed day, in universal time if the offset is known. -/
def minutes (m : Moment) : Int :=
  (m.date.ordinal * 1440 + m.hour * 60 + m.minute : Nat) - m.offset.getD 0

/-- Both name the same instant: with offsets on the universal clock, without on the local one. -/
def same (a b : Moment) : Bool :=
  a.offset.isSome = b.offset.isSome && a.minutes = b.minutes && a.second = b.second &&
    a.microsecond = b.microsecond

def offsetText (minutes : Int) : String :=
  (if minutes < 0 then "-" else "+") ++ paddedNat 2 (minutes.natAbs / 60) ++ ":" ++
    paddedNat 2 (minutes.natAbs % 60)

/-- Date and time with a separator; the fraction has six digits or is absent. -/
def isoWith (separator : String) (m : Moment) : String :=
  m.date.iso ++ separator ++ paddedNat 2 m.hour ++ ":" ++ paddedNat 2 m.minute ++ ":" ++
    paddedNat 2 m.second ++ (if m.microsecond = 0 then "" else "." ++ paddedNat 6 m.microsecond)

def iso (m : Moment) : String :=
  m.isoWith "T" ++ match m.offset with
    | none => ""
    | some 0 => "Z"
    | some o => offsetText o

def plainText (m : Moment) : String :=
  m.isoWith " " ++ (m.offset.map offsetText).getD ""

end Moment

end ApiModel
