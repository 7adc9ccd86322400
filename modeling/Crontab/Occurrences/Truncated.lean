import Crontab.Occurrences

/-! Streams of occurrences that end after a number of them. -/
namespace Crontab

/-- A stream of which at most `limit` occurrences are taken. -/
structure Truncated where
  source : Occurrences
  limit : Option Nat
  count : Nat := 0

namespace Truncated

def make (source : Occurrences) : Option Int → Except OccurrenceError Truncated
  | none => .ok { source, limit := none }
  | some n => if n < 0 then .error .negativeLimit else .ok { source, limit := some n.toNat }

/-- The next occurrence; at the limit the source is left alone. -/
def pull (t : Truncated) : Truncated × Except OccurrenceError (Option Moment) :=
  if t.limit.any (· ≤ t.count) then (t, .ok none)
  else
    let (source, result) := t.source.pull
    match result with
    | .ok (some m) => ({ t with source, count := t.count + 1 }, .ok (some m))
    | _ => ({ t with source }, result)

def collect : Nat → Truncated → Except OccurrenceError (List Moment)
  | 0, _ => .ok []
  | n + 1, t =>
    match t.pull with
    | (_, .error cause) => .error cause
    | (_, .ok none) => .ok []
    | (rest, .ok (some m)) => (collect n rest).map (m :: ·)

end Truncated

namespace Entry

def truncated (e : Entry) (start : Moment) (limit : Option Int) (inclusive : Bool := false)
    (settings : Settings := {}) : Except OccurrenceError Truncated :=
  Truncated.make (e.occurrences start inclusive settings) limit

def nextN (e : Entry) (n : Int) (start : Moment) (inclusive : Bool := false)
    (settings : Settings := {}) : Except OccurrenceError (List Moment) := do
  (← e.truncated start (some n) inclusive settings).collect n.toNat

end Entry

end Crontab
