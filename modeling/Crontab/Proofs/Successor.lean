import Crontab.Proofs.Odometer
import Crontab.Proofs.Ascending

/-! Advancing one wheel again and again. Each move shows the successor of the digits from the year
down to that wheel, and no legal digits are left out on the way. -/
namespace Crontab

def Wheel.faster : Wheel → List Wheel
  | .minute => []
  | .hour => [.minute]
  | .day => [.minute, .hour]
  | .month => [.minute, .hour, .day]
  | .year => [.minute, .hour, .day, .month]

namespace Reading

theorem downTo_lt_of_year_lt {r s : Reading} (h : r.date.year < s.date.year) (w : Wheel) :
    r.downTo w < s.downTo w := by
  cases w with
  | year => exact downTo_year_lt_iff.mpr h
  | month => exact downTo_month_lt_iff.mpr (Or.inl h)
  | day => exact downTo_day_lt_iff.mpr (Candidate.lt_iff.mpr (Or.inl h))
  | hour => exact downTo_hour_lt_iff_digits.mpr (Or.inl h)
  | minute => exact lt_iff_digits.mpr (Or.inl h)

theorem year_le_of_downTo_le {r s : Reading} {w : Wheel} (h : r.downTo w ≤ s.downTo w) :
    r.date.year ≤ s.date.year := by
  by_contra hlt
  exact absurd (downTo_lt_of_year_lt (not_le.mp hlt) w) (not_lt.mpr h)

theorem downTo_le_of_le {r s : Reading} (h : r ≤ s) (w : Wheel) : r.downTo w ≤ s.downTo w := by
  by_contra hlt
  exact absurd (lt_of_downTo_lt (not_le.mp hlt)) (not_lt.mpr h)

end Reading

namespace Odometer

def dial? (o : Odometer) : Wheel → Option Dial
  | .minute => some o.minute
  | .hour => some o.hour
  | .day => some o.day
  | .month => some o.month
  | .year => none

/-- The legal digits from the year down to a wheel. -/
def legalDigits (o : Odometer) (w : Wheel) : Set (List ℤ) :=
  {digits | ∃ r, o.Legal r ∧ r.downTo w = digits}

/-- From the year down to the wheel `w` the odometer `o'` shows the least legal digits above those
of `o`, every faster wheel is on its lowest legal value, and all dials are on legal ones. -/
structure Succeeds (o : Odometer) (w : Wheel) (o' : Odometer) : Prop where
  masks : o'.masks = o.masks
  legal : ∀ v d, o'.dial? v = some d → d.Legal d.value
  isLeast : IsLeast {digits ∈ o.legalDigits w | o.shown.downTo w < digits} (o'.shown.downTo w)
  lowest : ∀ v ∈ w.faster, ∀ d, o'.dial? v = some d → d.AtLowest

def advanced (o : Odometer) (w : Wheel) (k : ℕ) : Odometer :=
  (fun o => o.advance w)^[k] o

section Turn

variable {o : Odometer} {v : Wheel}

theorem dial?_turnYear : o.turnYear.dial? v = o.dial? v := by
  cases v <;> rfl

theorem dial?_turnMonth (hv : v ∈ Wheel.month.faster) : o.turnMonth.dial? v = o.dial? v := by
  have hmoved : ({ o with month := o.month.advance } : Odometer).dial? v = o.dial? v := by
    cases v <;> first | rfl | contradiction
  unfold turnMonth
  dsimp only
  split
  · exact dial?_turnYear.trans hmoved
  · exact hmoved

theorem dial?_turnDay (hv : v ∈ Wheel.day.faster) : o.turnDay.dial? v = o.dial? v := by
  have hmoved : ({ o with day := o.day.advance } : Odometer).dial? v = o.dial? v := by
    cases v <;> first | rfl | contradiction
  have hmonth : v ∈ Wheel.day.faster ++ [.day] := List.mem_append_left _ hv
  unfold turnDay
  dsimp only
  split
  · exact (dial?_turnMonth hmonth).trans hmoved
  · exact hmoved

theorem dial?_turnHour (hv : v ∈ Wheel.hour.faster) : o.turnHour.dial? v = o.dial? v := by
  have hmoved : ({ o with hour := o.hour.advance } : Odometer).dial? v = o.dial? v := by
    cases v <;> first | rfl | contradiction
  have hday : v ∈ Wheel.hour.faster ++ [.hour] := List.mem_append_left _ hv
  unfold turnHour
  dsimp only
  split
  · exact (dial?_turnDay hday).trans hmoved
  · exact hmoved

end Turn

variable (o : Odometer) (w : Wheel)

theorem dial?_turn {v : Wheel} (hv : v ∈ w.faster) : (o.turn w).dial? v = o.dial? v := by
  cases w with
  | minute => contradiction
  | hour => exact dial?_turnHour hv
  | day => exact dial?_turnDay hv
  | month => exact dial?_turnMonth hv
  | year => exact dial?_turnYear

theorem dial?_lowerBelow {v : Wheel} (hv : v ∈ w.faster) :
    (o.lowerBelow w).dial? v = (o.dial? v).map (·.seek 0) := by
  cases w <;> cases v <;> first | rfl | contradiction

theorem advance_atLowest {v : Wheel} (hv : v ∈ w.faster) {d : Dial}
    (hd : (o.advance w).dial? v = some d) : d.AtLowest := by
  rw [Odometer.advance, dial?_turn _ w hv, dial?_lowerBelow o w hv] at hd
  obtain ⟨d', _, rfl⟩ := Option.map_eq_some_iff.mp hd
  exact d'.seek_zero_atLowest

theorem advance_downTo_isLeast :
    IsLeast {digits ∈ o.legalDigits w | o.shown.downTo w < digits}
      ((o.advance w).shown.downTo w) := by
  obtain ⟨⟨hlegal, hlt⟩, hleast⟩ := o.advance_isLeast w
  refine ⟨⟨⟨_, hlegal, rfl⟩, hlt⟩, ?_⟩
  rintro _ ⟨⟨r, hr, rfl⟩, hafter⟩
  exact Reading.downTo_le_of_le (hleast ⟨hr, hafter⟩) w

theorem succeeds_advance : o.Succeeds w (o.advance w) :=
  ⟨o.advance_masks w, fun _ d _ => d.legal_value, o.advance_downTo_isLeast w,
    fun _ hv _ hd => o.advance_atLowest w hv hd⟩

theorem advanced_succ (k : ℕ) : o.advanced w (k + 1) = (o.advanced w k).advance w :=
  Function.iterate_succ_apply' _ k o

theorem advanced_advance (k : ℕ) : (o.advance w).advanced w k = o.advanced w (k + 1) :=
  (Function.iterate_succ_apply _ k o).symm

theorem advanced_masks (k : ℕ) : (o.advanced w k).masks = o.masks := by
  induction k with
  | zero => rfl
  | succ k ih => rw [advanced_succ, advance_masks, ih]

theorem advanced_succ_isLeast (k : ℕ) :
    IsLeast {r | o.Legal r ∧ (o.advanced w k).shown.downTo w < r.downTo w}
      (o.advanced w (k + 1)).shown := by
  have h := (o.advanced w k).advance_isLeast w
  rw [← advanced_succ] at h
  simpa only [Above, legal_iff_of_masks_eq (o.advanced_masks w k)] using h

theorem legalDigits_advanced (k : ℕ) : (o.advanced w k).legalDigits w = o.legalDigits w := by
  ext digits
  simp only [legalDigits, Set.mem_ofPred_eq, legal_iff_of_masks_eq (o.advanced_masks w k)]

theorem advanced_visits :
    Visits (o.legalDigits w) fun k => (o.advanced w k).shown.downTo w := by
  refine ⟨⟨_, o.legal_shown, rfl⟩, fun k => ?_⟩
  have h := (o.advanced w k).advance_downTo_isLeast w
  rwa [← advanced_succ, legalDigits_advanced] at h

theorem finite_legal_years (lo hi : ℤ) :
    {r | o.Legal r ∧ lo ≤ r.date.year ∧ r.date.year ≤ hi}.Finite := by
  refine (Reading.finite_box lo hi BitScan.width).subset fun r hr => ?_
  obtain ⟨⟨hmonth, hday, hhour, hminute⟩, hyear⟩ := hr
  exact ⟨hyear, o.month.lt_width_of_legal hmonth, o.day.lt_width_of_legal hday,
    o.hour.lt_width_of_legal hhour, o.minute.lt_width_of_legal hminute⟩

/-- Between two legal readings lie finitely many others, since a year has finitely many. -/
theorem finite_legalDigits_le {x : List ℤ} (hx : x ∈ o.legalDigits w) :
    {y ∈ o.legalDigits w | o.shown.downTo w ≤ y ∧ y ≤ x}.Finite := by
  obtain ⟨s, _, rfl⟩ := hx
  apply ((o.finite_legal_years o.shown.date.year s.date.year).image (·.downTo w)).subset
  rintro _ ⟨⟨r, hr, rfl⟩, hfrom, hto⟩
  exact ⟨r, ⟨hr, Reading.year_le_of_downTo_le hfrom, Reading.year_le_of_downTo_le hto⟩, rfl⟩

/-- Advancing a wheel leads to the successor of what the wheels from the year down to it show.
Advancing it again and again shows all later legal digits of these wheels, each of them once and in
ascending order: with the minute the later readings, with the day the later dates. -/
theorem advance_enumerates : o.Succeeds w (o.advance w) ∧
    StrictMono (fun k => (o.advanced w k).shown.downTo w) ∧
    Set.range (fun k => (o.advanced w (k + 1)).shown.downTo w) =
      {digits ∈ o.legalDigits w | o.shown.downTo w < digits} := by
  have hvisits := o.advanced_visits w
  refine ⟨o.succeeds_advance w, hvisits.strictMono, ?_⟩
  exact hvisits.range_succ_eq fun _ hx => o.finite_legalDigits_le w hx

end Odometer

end Crontab
