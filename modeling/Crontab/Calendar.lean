/-! The Gregorian calendar, extended to all years. -/
namespace Crontab

namespace Calendar

def isLeap (year : Int) : Bool :=
  year % 4 = 0 && (year % 100 ≠ 0 || year % 400 = 0)

def daysIn (year : Int) (month : Nat) : Nat :=
  if month = 2 then if isLeap year then 29 else 28
  else if month = 4 ∨ month = 6 ∨ month = 9 ∨ month = 11 then 30
  else 31

def daysBefore (year : Int) (month : Nat) : Nat :=
  (List.range (month - 1)).foldl (fun days i => days + daysIn year (i + 1)) 0

/-- The number of a day, counted from the first of January of the year 1 as 1. -/
def ordinal (year : Int) (month day : Nat) : Int :=
  let past := year - 1
  365 * past + past / 4 - past / 100 + past / 400 + daysBefore year month + day

end Calendar

structure Date where
  year : Int
  month : Nat
  day : Nat
  month_mem : 1 ≤ month ∧ month ≤ 12
  day_mem : 1 ≤ day ∧ day ≤ Calendar.daysIn year month
deriving DecidableEq, Repr

namespace Date

def of? (year : Int) (month day : Nat) : Option Date :=
  if h : (1 ≤ month ∧ month ≤ 12) ∧ 1 ≤ day ∧ day ≤ Calendar.daysIn year month then
    some ⟨year, month, day, h.1, h.2⟩
  else none

def ordinal (d : Date) : Int :=
  Calendar.ordinal d.year d.month d.day

/-- The day of the week, from Sunday as 0; the first day of the year 1 is a Monday. -/
def weekday (d : Date) : Nat :=
  (d.ordinal % 7).toNat

end Date

end Crontab
