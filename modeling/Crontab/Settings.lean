import Crontab.Text.Numeral

/-! Settings of a search: how many rejected dates it tolerates, and the years it covers. -/
namespace Crontab

structure Settings where
  /-- Rejected dates that one search tolerates before it gives up. -/
  maxInvalidDates : Nat := 100
  minYear : Int := 1
  maxYear : Int := 9999
  budget_pos : 1 ≤ maxInvalidDates := by decide
  window : 1 ≤ minYear ∧ minYear ≤ maxYear ∧ maxYear ≤ 9999 := by decide
deriving DecidableEq, Repr

inductive SettingsError where
  | budgetTooSmall
  | badWindow
deriving DecidableEq, Repr

namespace SettingsError

def message : SettingsError → String
  | budgetTooSmall => "max_invalid_dates must be at least 1"
  | badWindow => "Year window must satisfy 1 <= min_year <= max_year <= 9999"

end SettingsError

namespace Settings

def default : Settings := {}

/-- A small budget, enough for schedules with one day and one month. -/
def strict : Settings :=
  { maxInvalidDates := 40 }

def make (maxInvalidDates minYear maxYear : Int) : Except SettingsError Settings :=
  if hb : maxInvalidDates < 1 then .error .budgetTooSmall
  else if hw : 1 ≤ minYear ∧ minYear ≤ maxYear ∧ maxYear ≤ 9999 then
    .ok ⟨maxInvalidDates.toNat, minYear, maxYear, by omega, hw⟩
  else .error .badWindow

def containsYear (s : Settings) (year : Int) : Bool :=
  s.minYear ≤ year && year ≤ s.maxYear

def debugText? (s : Settings) : Option String := do
  let tolerance ← Text.decimal? s.maxInvalidDates
  return "IteratorConfig(max_invalid_dates=" ++ tolerance ++ ", min_year=" ++
    Text.decimal s.minYear ++ ", max_year=" ++ Text.decimal s.maxYear ++ ")"

end Settings

end Crontab
