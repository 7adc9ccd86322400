import Crontab.Entry
import Crontab.Moment

/-! Which moments an entry selects. -/
namespace Crontab.Entry

def matchesAt (e : Entry) (t : Moment) : Except ProgressionError Bool := do
  if t.second ≠ 0 ∨ t.microsecond ≠ 0 then return false
  let minute ← e.minutes.contains t.minute
  if !minute then return false
  let hour ← e.hours.contains t.hour
  if !hour then return false
  let day ← e.daysOfMonth.contains t.date.day
  if !day then return false
  let month ← e.months.contains t.date.month
  if !month then return false
  e.daysOfWeek.contains t.date.weekday

/-- The same by the sets of legal numbers: a full minute whose components are all allowed. -/
def Selects (e : Entry) (t : Moment) : Prop :=
  t.second = 0 ∧ t.microsecond = 0 ∧ e.minutes.Allows t.minute ∧ e.hours.Allows t.hour ∧
    e.daysOfMonth.Allows t.date.day ∧ e.months.Allows t.date.month ∧
    e.daysOfWeek.Allows t.date.weekday

end Crontab.Entry
