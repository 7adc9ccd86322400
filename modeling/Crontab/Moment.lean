import Crontab.Calendar
import Crontab.Text.Numeral

/-! Moments: a day, a time of that day, and optionally an offset from universal time. -/
namespace Crontab

structure Moment where
  date : Date
  hour : Nat
  minute : Nat
  second : Nat := 0
  microsecond : Nat := 0
  /-- Minutes ahead of universal time; without it the moment is local. -/
  offset : Option Int := none
  hour_lt : hour < 24
  minute_lt : minute < 60
  second_lt : second < 60 := by decide
  microsecond_lt : microsecond < 1000000 := by decide
deriving DecidableEq, Repr

inductive ClockError where
  | hour
  | minute
deriving DecidableEq, Repr

namespace ClockError

def message : ClockError → String
  | hour => "hour must be in 0..23"
  | minute => "minute must be in 0..59"

end ClockError

namespace Moment

def onMinute (date : Date) (hour minute : Nat) (offset : Option Int) : Except ClockError Moment :=
  if hh : hour < 24 then
    if hm : minute < 60 then
      .ok { date, hour, minute, offset, hour_lt := hh, minute_lt := hm }
    else .error .minute
  else .error .hour

def of? (date : Date) (hour minute second microsecond : Nat) (offset : Option Int) :
    Option Moment :=
  if h : hour < 24 ∧ minute < 60 ∧ second < 60 ∧ microsecond < 1000000 then
    some ⟨date, hour, minute, second, microsecond, offset, h.1, h.2.1, h.2.2.1, h.2.2.2⟩
  else none

def components (t : Moment) : List Int :=
  [t.date.year, t.date.month, t.date.day, t.hour, t.minute, t.second, t.microsecond]

/-- The order of what the clocks show. Moments with different offsets are compared otherwise, if at
all. -/
instance : LT Moment :=
  ⟨fun s t => s.components < t.components⟩

instance (s t : Moment) : Decidable (s < t) :=
  inferInstanceAs (Decidable (s.components < t.components))

/-- The number of the minute, counted from the start of the day before the year 1. -/
def minuteNumber (t : Moment) : Int :=
  (t.date.ordinal * 24 + t.hour) * 60 + t.minute

/-- A bound on the full minutes from `s` up to `t`, never zero. -/
def minutesUpTo (s t : Moment) : Nat :=
  (t.minuteNumber - s.minuteNumber).toNat + 1

def clockText (t : Moment) : String :=
  Text.padded 2 t.hour ++ ":" ++ Text.padded 2 t.minute ++ ":" ++ Text.padded 2 t.second

def dateText (d : Date) : String :=
  Text.padded 4 d.year.toNat ++ "-" ++ Text.padded 2 d.month ++ "-" ++ Text.padded 2 d.day

def offsetText (minutes : Int) : String :=
  (if minutes < 0 then "-" else "+") ++ Text.padded 2 (minutes.natAbs / 60) ++ ":" ++
    Text.padded 2 (minutes.natAbs % 60)

def textWith (mark : String) (t : Moment) : String :=
  dateText t.date ++ mark ++ t.clockText ++
    (if t.microsecond = 0 then "" else "." ++ Text.padded 6 t.microsecond) ++
    (t.offset.map offsetText).getD ""

def isoText (t : Moment) : String :=
  textWith "T" t

def logText (t : Moment) : String :=
  textWith " " t

/-- An offset as a number of days and a number of seconds that is not negative. -/
def offsetDebugText (minutes : Int) : String :=
  if minutes = 0 then "datetime.timezone.utc"
  else
    let seconds := Text.decimal (minutes * 60 % 86400)
    let delta := if minutes < 0 then "days=-1, seconds=" ++ seconds else "seconds=" ++ seconds
    "datetime.timezone(datetime.timedelta(" ++ delta ++ "))"

def debugText (t : Moment) : String :=
  let small :=
    if t.microsecond ≠ 0 then [(t.second : Int), t.microsecond]
    else if t.second ≠ 0 then [(t.second : Int)] else []
  let numbers := [t.date.year, t.date.month, t.date.day, t.hour, t.minute] ++ small
  let zone := (t.offset.map fun m => ["tzinfo=" ++ offsetDebugText m]).getD []
  "datetime.datetime(" ++ String.intercalate ", " (numbers.map Text.decimal ++ zone) ++ ")"

end Moment

end Crontab
