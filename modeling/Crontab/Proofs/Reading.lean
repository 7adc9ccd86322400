import Crontab.Odometer
import Crontab.Proofs.Dial

/-! What the wheels of an odometer show, ordered with the slowest wheel first. The order of full
minutes is the same. -/
namespace Crontab

/-- Year, month and day as the wheels show them; no such day need exist. -/
@[ext]
structure Candidate where
  year : ℤ
  month : ℕ
  day : ℕ
deriving DecidableEq, Repr

namespace Candidate

def digits (c : Candidate) : List ℤ :=
  [c.year, c.month, c.day]

theorem digits_injective : Function.Injective digits := by
  rintro ⟨y, m, d⟩ ⟨y', m', d'⟩ h
  simpa [digits] using h

instance : LinearOrder Candidate :=
  LinearOrder.lift' digits digits_injective

theorem lt_iff {c d : Candidate} : c < d ↔
    c.year < d.year ∨ c.year = d.year ∧
      (c.month < d.month ∨ c.month = d.month ∧ c.day < d.day) := by
  change c.digits < d.digits ↔ _
  simp [digits, List.cons_lt_cons_iff]

theorem year_le {c d : Candidate} (h : c ≤ d) : c.year ≤ d.year := by
  by_contra hlt
  exact absurd (lt_iff.mpr (Or.inl (not_le.mp hlt))) (not_lt.mpr h)

end Candidate

/-- A candidate date and a time of day. -/
structure Reading where
  date : Candidate
  hour : ℕ
  minute : ℕ
deriving DecidableEq, Repr

namespace Reading

/-- The digits of a reading from the year down to one wheel. -/
def downTo (r : Reading) : Wheel → List ℤ
  | .year => [r.date.year]
  | .month => [r.date.year, r.date.month]
  | .day => r.date.digits
  | .hour => [r.date.year, r.date.month, r.date.day, r.hour]
  | .minute => [r.date.year, r.date.month, r.date.day, r.hour, r.minute]

theorem downTo_minute_injective : Function.Injective fun r : Reading => r.downTo .minute := by
  rintro ⟨⟨y, m, d⟩, h, i⟩ ⟨⟨y', m', d'⟩, h', i'⟩ heq
  simpa [downTo, and_assoc] using heq

instance : LinearOrder Reading :=
  LinearOrder.lift' (fun r => r.downTo .minute) downTo_minute_injective

theorem lt_iff_downTo {r s : Reading} : r < s ↔ r.downTo .minute < s.downTo .minute := Iff.rfl

theorem downTo_year_lt_iff {r s : Reading} :
    r.downTo .year < s.downTo .year ↔ r.date.year < s.date.year := by
  simp [downTo, List.cons_lt_cons_iff]

theorem downTo_month_lt_iff {r s : Reading} : r.downTo .month < s.downTo .month ↔
    r.date.year < s.date.year ∨ r.date.year = s.date.year ∧ r.date.month < s.date.month := by
  simp [downTo, List.cons_lt_cons_iff]

theorem downTo_day_lt_iff {r s : Reading} : r.downTo .day < s.downTo .day ↔ r.date < s.date :=
  Iff.rfl

theorem downTo_hour_lt_iff_digits {r s : Reading} : r.downTo .hour < s.downTo .hour ↔
    r.date.year < s.date.year ∨ r.date.year = s.date.year ∧ (r.date.month < s.date.month ∨
      r.date.month = s.date.month ∧ (r.date.day < s.date.day ∨
        r.date.day = s.date.day ∧ r.hour < s.hour)) := by
  simp [downTo, List.cons_lt_cons_iff]

theorem downTo_hour_lt_iff {r s : Reading} : r.downTo .hour < s.downTo .hour ↔
    r.date < s.date ∨ r.date = s.date ∧ r.hour < s.hour := by
  rw [downTo_hour_lt_iff_digits, Candidate.lt_iff, Candidate.ext_iff]
  omega

theorem lt_iff_digits {r s : Reading} : r < s ↔
    r.date.year < s.date.year ∨ r.date.year = s.date.year ∧ (r.date.month < s.date.month ∨
      r.date.month = s.date.month ∧ (r.date.day < s.date.day ∨
        r.date.day = s.date.day ∧ (r.hour < s.hour ∨ r.hour = s.hour ∧ r.minute < s.minute))) := by
  rw [lt_iff_downTo]
  simp [downTo, List.cons_lt_cons_iff]

theorem lt_iff {r s : Reading} : r < s ↔ r.date < s.date ∨
    r.date = s.date ∧ (r.hour < s.hour ∨ r.hour = s.hour ∧ r.minute < s.minute) := by
  rw [lt_iff_digits, Candidate.lt_iff, Candidate.ext_iff]
  omega

theorem date_le {r s : Reading} (h : r ≤ s) : r.date ≤ s.date := by
  by_contra hlt
  exact absurd (lt_iff.mpr (Or.inl (not_le.mp hlt))) (not_lt.mpr h)

theorem lt_of_downTo_lt {r s : Reading} {w : Wheel} (h : r.downTo w < s.downTo w) : r < s := by
  rw [lt_iff_digits]
  cases w with
  | year => exact Or.inl (downTo_year_lt_iff.mp h)
  | month =>
    rw [downTo_month_lt_iff] at h
    omega
  | day =>
    rw [downTo_day_lt_iff, Candidate.lt_iff] at h
    omega
  | hour =>
    rw [downTo_hour_lt_iff_digits] at h
    omega
  | minute => exact lt_iff_digits.mp h

theorem lt_of_date_lt {r s : Reading} (h : r.date < s.date) : r < s :=
  lt_iff.mpr (Or.inl h)

/-- A box of digits holds finitely many readings. -/
theorem finite_box (lo hi : ℤ) (n : ℕ) : {r : Reading | (lo ≤ r.date.year ∧ r.date.year ≤ hi) ∧
    r.date.month < n ∧ r.date.day < n ∧ r.hour < n ∧ r.minute < n}.Finite := by
  let ofDigits : ℤ × ℕ × ℕ × ℕ × ℕ → Reading := fun (y, m, d, h, i) => ⟨⟨y, m, d⟩, h, i⟩
  have hdigits : (Set.Iio n).Finite := Set.finite_Iio n
  have hbox : (Set.Icc lo hi ×ˢ Set.Iio n ×ˢ Set.Iio n ×ˢ Set.Iio n ×ˢ Set.Iio n).Finite :=
    (Set.finite_Icc lo hi).prod (hdigits.prod (hdigits.prod (hdigits.prod hdigits)))
  refine (hbox.image ofDigits).subset fun r hr => ?_
  exact ⟨(r.date.year, r.date.month, r.date.day, r.hour, r.minute), hr, rfl⟩

end Reading

def Date.candidate (d : Date) : Candidate :=
  ⟨d.year, d.month, d.day⟩

theorem Date.candidate_injective : Function.Injective Date.candidate := by
  rintro ⟨y, m, d, _, _⟩ ⟨y', m', d', _, _⟩ h
  simpa [Date.candidate] using h

namespace Moment

def reading (t : Moment) : Reading :=
  ⟨t.date.candidate, t.hour, t.minute⟩

theorem lt_iff {s t : Moment} : s < t ↔ s.reading < t.reading ∨
    s.reading = t.reading ∧ (s.second < t.second ∨
      s.second = t.second ∧ s.microsecond < t.microsecond) := by
  change s.components < t.components ↔ _
  simp only [components, reading, Date.candidate, Reading.lt_iff_downTo, Reading.downTo,
    List.cons_lt_cons_iff, List.not_lt_nil, Reading.mk.injEq, Candidate.mk.injEq,
    Nat.cast_lt, Nat.cast_inj, and_false, or_false]
  omega

/-- Full minutes with one offset are told apart by their readings. -/
theorem eq_of_reading_eq {s t : Moment} (h : s.reading = t.reading)
    (hs : s.second = t.second) (hm : s.microsecond = t.microsecond)
    (ho : s.offset = t.offset) : s = t := by
  obtain ⟨d, h₁, m₁, s₁, u₁, o₁, _, _, _, _⟩ := s
  obtain ⟨d', h₂, m₂, s₂, u₂, o₂, _, _, _, _⟩ := t
  simp only [reading, Reading.mk.injEq] at h
  obtain rfl := Date.candidate_injective h.1
  simp_all

end Moment

namespace Odometer

def shown (o : Odometer) : Reading :=
  ⟨⟨o.year.value, o.month.value, o.day.value⟩, o.hour.value, o.minute.value⟩

theorem downTo_minute_shown (o : Odometer) : o.shown.downTo .minute = o.reading := rfl

/-- A reading made of legal values; every year is legal. -/
def Legal (o : Odometer) (r : Reading) : Prop :=
  o.month.Legal r.date.month ∧ o.day.Legal r.date.day ∧ o.hour.Legal r.hour ∧
    o.minute.Legal r.minute

theorem legal_shown (o : Odometer) : o.Legal o.shown :=
  ⟨o.month.legal_value, o.day.legal_value, o.hour.legal_value, o.minute.legal_value⟩

end Odometer

end Crontab
