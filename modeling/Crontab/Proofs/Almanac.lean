import Crontab.Almanac
import Crontab.Proofs.Reading

/-! What is relied on of the calendar and the clock: answers for the months and days of a year, and
comparisons of moments with one offset. Any almanac with these answers serves a session alike. -/
namespace Crontab

theorem Date.of?_eq_some_iff {c : Candidate} {d : Date} :
    Date.of? c.year c.month c.day = some d ↔ d.candidate = c := by
  obtain ⟨y, m, day⟩ := c
  obtain ⟨y', m', day', hm, hd⟩ := d
  simp only [Date.of?, Date.candidate, Candidate.mk.injEq, Option.dite_none_right_eq_some,
    Option.some.injEq, Date.mk.injEq, exists_prop]
  constructor
  · intro h
    obtain ⟨_, rfl, rfl, rfl⟩ := h
    exact ⟨rfl, rfl, rfl⟩
  · intro h
    obtain ⟨rfl, rfl, rfl⟩ := h
    exact ⟨⟨hm, hd⟩, rfl, rfl, rfl⟩

theorem Date.of?_self (d : Date) : Date.of? d.year d.month d.day = some d :=
  Date.of?_eq_some_iff (c := d.candidate).mpr rfl

namespace Moment

/-- The readings after a reference, and the reference itself if it is included. -/
def onward (t : Moment) (included : Prop) : Set Reading :=
  {r | t.reading < r ∨ included ∧ t.reading = r}

theorem isUpperSet_onward (t : Moment) (included : Prop) : IsUpperSet (t.onward included) := by
  rintro r r' hle (hlt | ⟨hincluded, rfl⟩)
  · exact Or.inl (hlt.trans_le hle)
  · exact hle.lt_or_eq.imp_right fun heq => ⟨hincluded, heq⟩

theorem mem_onward_true {t : Moment} {r : Reading} : r ∈ t.onward True ↔ t.reading ≤ r := by
  rw [onward, Set.mem_ofPred_eq, true_and, le_iff_lt_or_eq]

theorem reading_le_of_mem_onward {t : Moment} {included : Prop} {r : Reading}
    (h : r ∈ t.onward included) : t.reading ≤ r :=
  h.elim le_of_lt fun heq => heq.2.le

/-- A moment without seconds or parts of one. -/
def IsFull (t : Moment) : Prop :=
  t.second = 0 ∧ t.microsecond = 0

variable {c t : Moment}

theorem lt_iff_onward (hs : c.second = 0) (hu : c.microsecond = 0) :
    t < c ↔ c.reading ∈ t.onward False := by
  rw [lt_iff, hs, hu, onward, Set.mem_ofPred_eq]
  simp only [Nat.not_lt_zero, and_false, or_false, false_and]

/-- A full minute is not before a reference if it lies onward from it, and the minute of the
reference counts only if the reference is full. -/
theorem not_lt_iff_onward (hs : c.second = 0) (hu : c.microsecond = 0) :
    ¬ c < t ↔ c.reading ∈ t.onward t.IsFull := by
  rw [lt_iff, hs, hu, onward, Set.mem_ofPred_eq, IsFull]
  rcases lt_trichotomy c.reading t.reading with hlt | heq | hgt
  · simp only [hlt, hlt.not_gt, hlt.ne', true_or, not_true_eq_false, and_false, or_false]
  · simp only [heq, lt_irrefl, false_or, true_and, and_true]
    omega
  · simp only [hgt, hgt.not_gt, hgt.ne', false_and, or_false, not_false_eq_true, true_or]

theorem before_of_offset_eq (h : c.offset = t.offset) : c.before t = .ok (decide (c < t)) :=
  if_pos h

theorem onMinute_of_isFull (h : t.IsFull) : onMinute t.date t.hour t.minute t.offset = .ok t := by
  obtain ⟨hsecond, hmicrosecond⟩ := h
  rw [onMinute, dif_pos t.hour_lt, dif_pos t.minute_lt]
  cases t
  subst hsecond hmicrosecond
  rfl

end Moment

/-- Among the full minutes onward from a reference, with its offset, the test is answered and picks
those that are onward under the second condition too. -/
def Picks (wanted : Moment → Except AlmanacError Bool) (t : Moment) (p q : Prop) : Prop :=
  ∀ c : Moment, c.IsFull → c.offset = t.offset → c.reading ∈ t.onward p →
    ∃ b, wanted c = .ok b ∧ (b = true ↔ c.reading ∈ t.onward q)

namespace Almanac

/-- The questions about the months, the days and the minutes of a year are answered. -/
structure Covers (a : Almanac) (year : ℤ) : Prop where
  monthLength : ∀ month, 1 ≤ month ∧ month ≤ 12 →
    a.monthLength year month = .ok (Calendar.daysIn year month)
  date : ∀ d : Date, d.year = year → a.date year d.month d.day = .ok d
  moment : ∀ t : Moment, t.IsFull → t.date.year = year →
    a.moment year t.date.month t.date.day t.hour t.minute t.offset = .ok t

def Compares (a : Almanac) : Prop :=
  ∀ s t : Moment, s.offset = t.offset → a.before s t = .ok (decide (s < t))

theorem Covers.moment_of_shown {a : Almanac} {o : Odometer} {t : Moment}
    (ha : a.Covers o.year.value) (hfull : t.IsFull) (hshown : o.shown = t.reading) :
    a.moment o.year.value o.month.value o.day.value o.hour.value o.minute.value t.offset =
      .ok t := by
  simp only [Odometer.shown, Moment.reading, Date.candidate, Reading.mk.injEq,
    Candidate.mk.injEq] at hshown
  obtain ⟨⟨hyear, hmonth, hday⟩, hhour, hminute⟩ := hshown
  have hmoment := ha.moment t hfull hyear.symm
  rwa [← hmonth, ← hday, ← hhour, ← hminute] at hmoment

theorem gregorianDate_eq {d : Date} (h : 1 ≤ d.year ∧ d.year ≤ 9999) :
    gregorianDate d.year d.month d.day = .ok d := by
  have hyear : ¬ (d.year < 1 ∨ 9999 < d.year) := by omega
  have hmonth : ¬ (d.month < 1 ∨ 12 < d.month) := by
    have := d.month_mem
    omega
  rw [gregorianDate, if_neg hyear, if_neg hmonth, d.of?_self]

theorem gregorian_covers {year : ℤ} (h : 1 ≤ year ∧ year ≤ 9999) : gregorian.Covers year := by
  refine ⟨fun month hmonth => if_pos hmonth, ?_, ?_⟩
  · rintro d rfl
    exact gregorianDate_eq h
  · rintro t hfull rfl
    show (do let d ← gregorianDate t.date.year t.date.month t.date.day; _) = _
    rw [gregorianDate_eq h]
    show (Moment.onMinute t.date t.hour t.minute t.offset).mapError _ = _
    rw [Moment.onMinute_of_isFull hfull]
    rfl

theorem gregorian_moment_offset {year : ℤ} {month day hour minute : ℕ} {offset : Option ℤ}
    {t : Moment} (h : gregorian.moment year month day hour minute offset = .ok t) :
    t.offset = offset := by
  change (do let d ← gregorianDate year month day
             (Moment.onMinute d hour minute offset).mapError _) = _ at h
  cases hd : gregorianDate year month day with
  | error cause =>
    rw [hd] at h
    contradiction
  | ok d =>
    rw [hd] at h
    change (Moment.onMinute d hour minute offset).mapError _ = _ at h
    unfold Moment.onMinute at h
    split_ifs at h <;> cases h
    rfl

theorem gregorian_compares : gregorian.Compares :=
  fun _ _ => Moment.before_of_offset_eq

namespace Compares

variable {a : Almanac} (h : a.Compares) {c t : Moment}
include h

theorem reaches_eq (hoffset : c.offset = t.offset) : a.reaches t c = .ok (!decide (c < t)) := by
  rw [reaches, h c t hoffset]
  rfl

theorem counts_eq (inclusive : Bool) (hoffset : c.offset = t.offset) :
    a.counts t inclusive c = .ok (inclusive || decide (t < c)) := by
  rw [counts, h t c hoffset.symm]
  cases inclusive <;> rfl

theorem reaches_picks (t : Moment) (p : Prop) : Picks (a.reaches t) t p t.IsFull := by
  intro c hfull hoffset _
  refine ⟨_, h.reaches_eq hoffset, ?_⟩
  rw [Bool.not_eq_true', decide_eq_false_iff_not]
  exact Moment.not_lt_iff_onward hfull.1 hfull.2

theorem counts_picks (t : Moment) (inclusive : Bool) :
    Picks (a.counts t inclusive) t t.IsFull (inclusive = true ∧ t.IsFull) := by
  intro c hfull hoffset honward
  refine ⟨_, h.counts_eq inclusive hoffset, ?_⟩
  rw [Bool.or_eq_true, decide_eq_true_eq, Moment.lt_iff_onward hfull.1 hfull.2]
  cases inclusive with
  | true => simpa using honward
  | false => simp

end Compares

end Almanac

end Crontab
