import Crontab.Session

/-! Streams of occurrences: built when the first one is asked for, and finished by an error. -/
namespace Crontab

inductive OccurrenceError where
  | negativeLimit
  | session (cause : SessionError)
  | search (cause : SearchError)
deriving DecidableEq, Repr

namespace OccurrenceError

def message : OccurrenceError → String
  | negativeLimit => "limit must be non-negative"
  | session cause => cause.message
  | search cause => cause.message

end OccurrenceError

namespace Entry

def nextFrom (e : Entry) (start : Moment) (inclusive : Bool := true) (settings : Settings := {}) :
    Except OccurrenceError (Option Moment) :=
  match Session.start e settings with
  | .error cause => .error (.session cause)
  | .ok s =>
    match (s.first start inclusive).result with
    | .error cause => .error (.search cause)
    | .ok t => .ok t

end Entry

/-- The occurrences of an entry from a start on, as far as they have been asked for. -/
inductive Occurrences where
  | unopened (entry : Entry) (start : Moment) (inclusive : Bool) (settings : Settings)
  | opened (session : Session) (start : Moment) (inclusive : Bool)
  | finished

namespace Occurrences

/-- The stream after a step that should have reached an occurrence. -/
def after (step : Step) (start : Moment) (inclusive : Bool) :
    Occurrences × Except OccurrenceError (Option Moment) :=
  match step.result with
  | .error cause => (finished, .error (.search cause))
  | .ok none => (finished, .ok none)
  | .ok (some t) => (opened step.session start inclusive, .ok (some t))

/-- The next occurrence, nothing at the end of the stream; after an error the stream has ended. -/
def pull : Occurrences → Occurrences × Except OccurrenceError (Option Moment)
  | unopened e start inclusive settings =>
    match Session.start e settings with
    | .error cause => (finished, .error (.session cause))
    | .ok s => after (s.first start inclusive) start inclusive
  | opened s start inclusive =>
    after (s.next.skipTo (Almanac.gregorian.counts start inclusive) start) start inclusive
  | finished => (finished, .ok none)

inductive Ending where
  | limit
  | exhausted
  | failed (cause : OccurrenceError)
deriving DecidableEq, Repr

def run : Nat → Occurrences → List Moment × Ending
  | 0, _ => ([], .limit)
  | n + 1, s =>
    match s.pull with
    | (_, .error cause) => ([], .failed cause)
    | (_, .ok none) => ([], .exhausted)
    | (rest, .ok (some t)) =>
      let (later, ending) := run n rest
      (t :: later, ending)

end Occurrences

namespace Entry

def occurrences (e : Entry) (start : Moment) (inclusive : Bool := true)
    (settings : Settings := {}) : Occurrences :=
  .unopened e start inclusive settings

end Entry

end Crontab
