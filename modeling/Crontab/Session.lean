import Crontab.Entry
import Crontab.Search

/-! Sessions: a cursor over the occurrences of an entry that can be reset and stepped. -/
namespace Crontab

structure Session where
  settings : Settings
  odometer : Odometer
  weekdays : Nat
  offset : Option Int
  current : Option Moment
deriving DecidableEq

inductive SessionError where
  | progression (cause : ProgressionError)
  | dial (cause : DialError)
  | noWeekdays
deriving DecidableEq, Repr

namespace SessionError

def message : SessionError → String
  | progression cause => cause.message
  | dial cause => cause.message
  | noWeekdays => "No valid days of week"

end SessionError

/-- What one call leaves behind: the session, the result, and the reports of the call. -/
structure Step where
  session : Session
  result : Except SearchError (Option Moment)
  log : List Event

namespace Session

def maskOf (f : Field) : Except SessionError Nat :=
  match f.mask with
  | .ok m => .ok m
  | .error e => .error (.progression e)

def dialOf (f : Field) : Except SessionError Dial := do
  match Dial.ofMask (← maskOf f) with
  | .ok d => return d
  | .error e => .error (.dial e)

def start (e : Entry) (settings : Settings := {}) : Except SessionError Session := do
  let minute ← dialOf e.minutes
  let hour ← dialOf e.hours
  let day ← dialOf e.daysOfMonth
  let month ← dialOf e.months
  let weekdays ← maskOf e.daysOfWeek
  if weekdays = 0 then .error .noWeekdays
  else return ⟨settings, ⟨⟨settings.minYear⟩, month, day, hour, minute⟩, weekdays, none, none⟩

/-- Searches from the odometer on; only a search that ends replaces the current occurrence. -/
def settle (s : Session) (almanac : Almanac := .gregorian) : Step :=
  let search := Search.run s.settings s.weekdays s.odometer almanac
  let o := search.odometer
  let s' := { s with odometer := o }
  match search.outcome with
  | .error cause => ⟨s', .error cause, search.log⟩
  | .ok none => ⟨{ s' with current := none }, .ok none, search.log⟩
  | .ok (some _) =>
    match almanac.moment o.year.value o.month.value o.day.value o.hour.value o.minute.value
      s.offset with
    | .error cause => ⟨s', .error (.refused cause), search.log⟩
    | .ok t => ⟨{ s' with current := some t }, .ok (some t), search.log⟩

def next (s : Session) (almanac : Almanac := .gregorian) : Step :=
  match s.current with
  | none => ⟨s, .ok none, []⟩
  | some _ =>
    let step := { s with odometer := s.odometer.advance .minute }.settle almanac
    match step.result with
    | .ok none => { step with log := step.log ++ [.exhausted s.settings.maxYear] }
    | _ => step

end Session

namespace Step

/-- Steps on while the current occurrence is not wanted, at most `fuel` times. -/
def skip (wanted : Moment → Except AlmanacError Bool) (almanac : Almanac) : Nat → Step → Step
  | 0, step => step
  | fuel + 1, step =>
    match step.result with
    | .ok (some t) =>
      match wanted t with
      | .error cause => { step with result := .error (.refused cause) }
      | .ok true => step
      | .ok false =>
        let later := step.session.next almanac
        skip wanted almanac fuel { later with log := step.log ++ later.log }
    | _ => step

/-- Steps on to the first wanted occurrence, where every one after `limit` is wanted. -/
def skipTo (wanted : Moment → Except AlmanacError Bool) (limit : Moment) (step : Step)
    (almanac : Almanac := .gregorian) : Step :=
  match step.result with
  | .ok (some t) => skip wanted almanac (t.minutesUpTo limit) step
  | _ => step

end Step

namespace Session

/-- Moves to the first occurrence at a reference or after it, and takes over its offset. -/
def reset (s : Session) (t : Moment) (almanac : Almanac := .gregorian) : Step :=
  let aligned := { s with
    odometer := s.odometer.seek s.settings.minYear t
    offset := t.offset }
  let step := (aligned.settle almanac).skipTo (almanac.reaches t) t almanac
  match step.result with
  | .ok c => { step with log := step.log ++ [.reset t c] }
  | .error _ => step

def first (s : Session) (t : Moment) (inclusive : Bool) : Step :=
  (s.reset t).skipTo (Almanac.gregorian.counts t inclusive) t

def debugText (s : Session) : String :=
  "CronSpecIterator(current=" ++ (s.current.map Moment.debugText).getD "None" ++ ")"

end Session

end Crontab
