import Crontab.Almanac
import Crontab.Odometer
import Crontab.Settings

/-! The search for a date: the odometer steps over rejected days, within a budget. -/
namespace Crontab

inductive SearchError where
  | unsatisfiable (attempts : Nat) (year : Int) (month day : Nat)
  | refused (cause : AlmanacError)
deriving DecidableEq, Repr

namespace SearchError

def message : SearchError → String
  | unsatisfiable .. => "Cron spec generates too many invalid dates"
  | refused cause => cause.message

end SearchError

inductive Event where
  | gaveUp (attempts : Nat) (year : Int) (month day : Nat)
  | exhausted (lastYear : Int)
  | reset (reference : Moment) (current : Option Moment)
deriving DecidableEq, Repr

namespace Event

def level : Event → String
  | gaveUp .. => "WARNING"
  | exhausted _ => "DEBUG"
  | reset .. => "DEBUG"

def message : Event → String
  | gaveUp attempts year month day =>
    "Giving up after " ++ Text.decimal attempts ++ " invalid dates, last candidate " ++
      Text.padded 4 year.toNat ++ "-" ++ Text.padded 2 month ++ "-" ++ Text.padded 2 day
  | exhausted lastYear => "Iterator exhausted after year " ++ Text.decimal lastYear
  | reset reference current =>
    "Iterator reset to " ++ reference.logText ++ ", current occurrence " ++
      (current.map Moment.logText).getD "None"

end Event

namespace Odometer

/-- The day on the odometer, if it exists and falls on one of the weekdays of the mask. -/
def date? (weekdays : Nat) (o : Odometer) (almanac : Almanac := .gregorian) :
    Except AlmanacError (Option Date) :=
  if o.day.value = 0 then .ok none
  else do
    let length ← almanac.monthLength o.year.value o.month.value
    if length < o.day.value then return none
    else
      let d ← almanac.date o.year.value o.month.value o.day.value
      return if weekdays.testBit d.weekday then some d else none

end Odometer

structure Search where
  odometer : Odometer
  outcome : Except SearchError (Option Date)
  log : List Event

namespace Search

/-- Steps from one rejected day to the next, after `failed` of them. -/
def within (settings : Settings) (weekdays : Nat) (almanac : Almanac) (failed : Nat)
    (o : Odometer) : Search :=
  if settings.containsYear o.year.value then
    match o.date? weekdays almanac with
    | .error cause => ⟨o, .error (.refused cause), []⟩
    | .ok (some d) => ⟨o, .ok (some d), []⟩
    | .ok none =>
      let failed := failed + 1
      if settings.maxInvalidDates < failed then
        ⟨o, .error (.unsatisfiable failed o.year.value o.month.value o.day.value),
          [.gaveUp failed o.year.value o.month.value o.day.value]⟩
      else within settings weekdays almanac failed (o.advance .day)
  else ⟨o, .ok none, []⟩
termination_by settings.maxInvalidDates - failed

def run (settings : Settings) (weekdays : Nat) (o : Odometer)
    (almanac : Almanac := .gregorian) : Search :=
  within settings weekdays almanac 0 o

end Search

end Crontab
