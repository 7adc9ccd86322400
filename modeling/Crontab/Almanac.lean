import Crontab.Moment

/-! What a session asks of the calendar and the clock. Every question can be refused. -/
namespace Crontab

inductive AlmanacError where
  | monthNumber (month : Nat)
  | year (year : Int)
  | month
  | day
  | clock (cause : ClockError)
  | mixedOffsets
deriving DecidableEq, Repr

namespace AlmanacError

def message : AlmanacError → String
  | monthNumber n => "bad month number " ++ Text.decimal n ++ "; must be 1-12"
  | year n => "year " ++ Text.decimal n ++ " is out of range"
  | month => "month must be in 1..12"
  | day => "day is out of range for month"
  | clock cause => cause.message
  | mixedOffsets => "can't compare offset-naive and offset-aware datetimes"

end AlmanacError

namespace Moment

def instant (t : Moment) : Int :=
  ((t.minuteNumber - t.offset.getD 0) * 60 + t.second) * 1000000 + t.microsecond

/-- With one offset the clocks are compared, with two different ones the instants. A moment with an
offset and one without are not compared at all. -/
def before (s t : Moment) : Except AlmanacError Bool :=
  if s.offset = t.offset then .ok (decide (s < t))
  else if s.offset.isSome && t.offset.isSome then .ok (decide (s.instant < t.instant))
  else .error .mixedOffsets

end Moment

structure Almanac where
  monthLength (year : Int) (month : Nat) : Except AlmanacError Nat
  date (year : Int) (month day : Nat) : Except AlmanacError Date
  moment (year : Int) (month day hour minute : Nat) (offset : Option Int) :
    Except AlmanacError Moment
  before (s t : Moment) : Except AlmanacError Bool

namespace Almanac

def gregorianDate (year : Int) (month day : Nat) : Except AlmanacError Date :=
  if year < 1 ∨ 9999 < year then .error (.year year)
  else if month < 1 ∨ 12 < month then .error .month
  else match Date.of? year month day with
    | some d => .ok d
    | none => .error .day

def gregorian : Almanac where
  monthLength year month :=
    if 1 ≤ month ∧ month ≤ 12 then .ok (Calendar.daysIn year month)
    else .error (.monthNumber month)
  date := gregorianDate
  moment year month day hour minute offset := do
    let d ← gregorianDate year month day
    (Moment.onMinute d hour minute offset).mapError .clock
  before := Moment.before

def reaches (a : Almanac) (t c : Moment) : Except AlmanacError Bool :=
  (a.before c t).map not

/-- Whether an occurrence counts from a start on; unless `inclusive`, it has to come after it. -/
def counts (a : Almanac) (start : Moment) (inclusive : Bool) (c : Moment) :
    Except AlmanacError Bool :=
  if inclusive then .ok true else a.before start c

end Almanac

end Crontab
