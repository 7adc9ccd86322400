import Crontab.Calendar
import Mathlib

/-! The calendar repeats after 400 years, and every 40 years have a leap year for each weekday. -/
namespace Crontab.Calendar

def daysPast (year : ℤ) : ℤ :=
  365 * (year - 1) + (year - 1) / 4 - (year - 1) / 100 + (year - 1) / 400

theorem ordinal_eq (year : ℤ) (month day : ℕ) :
    ordinal year month day = daysPast year + daysBefore year month + day := rfl

/-- The 400 years of a cycle have a whole number of weeks. -/
theorem daysPast_add_cycles (year q : ℤ) :
    daysPast (year + 400 * q) = daysPast year + 146097 * q := by
  unfold daysPast
  omega

theorem isLeap_add_cycles (year q : ℤ) : isLeap (year + 400 * q) = isLeap year := by
  have h4 : (year + 400 * q) % 4 = year % 4 := by omega
  have h100 : (year + 400 * q) % 100 = year % 100 := by omega
  have h400 : (year + 400 * q) % 400 = year % 400 := by omega
  rw [isLeap, isLeap, h4, h100, h400]

theorem daysIn_of_isLeap_eq {y y' : ℤ} (h : isLeap y = isLeap y') (month : ℕ) :
    daysIn y month = daysIn y' month := by
  rw [daysIn, daysIn, h]

theorem daysIn_le_of_isLeap {year leapYear : ℤ} (h : isLeap leapYear = true) (month : ℕ) :
    daysIn year month ≤ daysIn leapYear month := by
  rw [daysIn, daysIn, h, if_pos (rfl : true = true)]
  split_ifs <;> omega

theorem daysBefore_of_isLeap_eq {y y' : ℤ} (h : isLeap y = isLeap y') (month : ℕ) :
    daysBefore y month = daysBefore y' month := by
  simp only [daysBefore, daysIn_of_isLeap_eq h]

/-- Whether one of ten years with a number divisible by four, from `4 * q` on, is a leap year that
begins `w` days after a Sunday. -/
def leapYearFrom (q w : ℤ) : Bool :=
  (List.range 10).any fun i => isLeap (4 * (q + i)) && daysPast (4 * (q + i)) % 7 == w

theorem leapYearFrom_of_lt_cycle :
    ((List.range 100).all fun q => (List.range 7).all fun w => leapYearFrom q w) = true := by
  decide +kernel

theorem exists_leapYear (first : ℤ) {w : ℤ} (hw : 0 ≤ w ∧ w < 7) :
    ∃ year, first ≤ year ∧ year < first + 40 ∧ isLeap year = true ∧ daysPast year % 7 = w := by
  have hall := leapYearFrom_of_lt_cycle
  simp only [List.all_eq_true, List.mem_range] at hall
  let q : ℤ := (first + 3) / 4
  have hfound := hall (q % 100).toNat (by omega) w.toNat (by omega)
  rw [Int.toNat_of_nonneg (by omega), Int.toNat_of_nonneg hw.1] at hfound
  simp only [leapYearFrom, List.any_eq_true, List.mem_range, Bool.and_eq_true, beq_iff_eq] at hfound
  obtain ⟨i, hi, hleap, hweekday⟩ := hfound
  have hcycle : 4 * (q + i) = 4 * (q % 100 + i) + 400 * (q / 100) := by omega
  refine ⟨4 * (q + i), by omega, by omega, ?_, ?_⟩
  · rw [hcycle, isLeap_add_cycles]
    exact hleap
  · rw [hcycle, daysPast_add_cycles]
    omega

end Crontab.Calendar

namespace Crontab

/-- A day that leap years have falls on every weekday within 40 years. -/
theorem Date.exists_weekday_within_forty_years {month day : ℕ}
    (hmonth : 1 ≤ month ∧ month ≤ 12) (hday : 1 ≤ day)
    (hexists : ∃ year, Calendar.isLeap year = true ∧ day ≤ Calendar.daysIn year month)
    (first : ℤ) {w : ℕ} (hw : w < 7) :
    ∃ d : Date, first ≤ d.year ∧ d.year < first + 40 ∧ d.month = month ∧ d.day = day ∧
      d.weekday = w := by
  obtain ⟨year, hyear, hdays⟩ := hexists
  obtain ⟨leapYear, hlo, hhi, hleap, hweekday⟩ :=
    Calendar.exists_leapYear first (w := (w - Calendar.daysBefore year month - day) % 7)
      ⟨Int.emod_nonneg _ (by decide), Int.emod_lt_of_pos _ (by decide)⟩
  have hsame : Calendar.isLeap leapYear = Calendar.isLeap year := hleap.trans hyear.symm
  have hlength := Calendar.daysIn_of_isLeap_eq hsame month
  refine ⟨⟨leapYear, month, day, hmonth, hday, hlength ▸ hdays⟩, hlo, hhi, rfl, rfl, ?_⟩
  simp only [weekday, ordinal, Calendar.ordinal_eq, Calendar.daysBefore_of_isLeap_eq hsame]
  omega

end Crontab
