import Crontab.Proofs.Reading

/-! Advancing a wheel shows the least legal reading that differs upwards on that wheel or on a
slower one. Seeking shows the least legal reading from a reference on. -/
namespace Crontab.Odometer

/-- The legal values of the wheels, which no move changes. -/
def masks (o : Odometer) : List ℕ :=
  [o.month.mask, o.day.mask, o.hour.mask, o.minute.mask]

theorem legal_iff_of_masks_eq {o o' : Odometer} (h : o'.masks = o.masks) (r : Reading) :
    o'.Legal r ↔ o.Legal r := by
  simp only [masks, List.cons.injEq] at h
  simp only [Legal, Dial.Legal, h]

theorem legal_shown_of_masks_eq {o o' : Odometer} (h : o'.masks = o.masks) : o.Legal o'.shown :=
  (legal_iff_of_masks_eq h _).mp o'.legal_shown

@[simp] theorem turnMonth_masks (o : Odometer) : o.turnMonth.masks = o.masks := by
  unfold turnMonth turnYear
  dsimp only
  split <;> rfl

@[simp] theorem turnDay_masks (o : Odometer) : o.turnDay.masks = o.masks := by
  unfold turnDay
  dsimp only
  split
  · exact turnMonth_masks _
  · rfl

@[simp] theorem turnHour_masks (o : Odometer) : o.turnHour.masks = o.masks := by
  unfold turnHour
  dsimp only
  split
  · exact turnDay_masks _
  · rfl

@[simp] theorem turnMinute_masks (o : Odometer) : o.turnMinute.masks = o.masks := by
  unfold turnMinute
  dsimp only
  split
  · exact turnHour_masks _
  · rfl

@[simp] theorem lowerBelow_masks (o : Odometer) (w : Wheel) : (o.lowerBelow w).masks = o.masks := by
  cases w <;> rfl

@[simp] theorem advance_masks (o : Odometer) (w : Wheel) : (o.advance w).masks = o.masks := by
  have h := o.lowerBelow_masks w
  cases w with
  | minute => exact (turnMinute_masks _).trans h
  | hour => exact (turnHour_masks _).trans h
  | day => exact (turnDay_masks _).trans h
  | month => exact (turnMonth_masks _).trans h
  | year => exact h

@[simp] theorem seekMinute_masks (o : Odometer) (t : Moment) :
    (o.seekMinute t).masks = o.masks := by
  unfold seekMinute
  dsimp only
  split
  · exact advance_masks _ _
  · rfl

@[simp] theorem seekHour_masks (o : Odometer) (t : Moment) : (o.seekHour t).masks = o.masks := by
  unfold seekHour
  dsimp only
  split
  · exact advance_masks _ _
  · split
    · rfl
    · exact seekMinute_masks _ _

@[simp] theorem seekDay_masks (o : Odometer) (t : Moment) : (o.seekDay t).masks = o.masks := by
  unfold seekDay
  dsimp only
  split
  · exact advance_masks _ _
  · split
    · rfl
    · exact seekHour_masks _ _

@[simp] theorem seekMonth_masks (o : Odometer) (t : Moment) : (o.seekMonth t).masks = o.masks := by
  unfold seekMonth
  dsimp only
  split
  · exact advance_masks _ _
  · split
    · rfl
    · exact seekDay_masks _ _

@[simp] theorem seek_masks (o : Odometer) (minYear : ℤ) (t : Moment) :
    (o.seek minYear t).masks = o.masks := by
  unfold seek
  split
  · rfl
  · exact seekMonth_masks _ _

/-- The legal readings above the present one, when the wheels faster than `w` do not count. -/
def Above (o : Odometer) (w : Wheel) : Set Reading :=
  {r | o.Legal r ∧ o.shown.downTo w < r.downTo w}

section Turn

variable (o : Odometer)

theorem turnYear_isLeast (hmonth : o.month.AtLowest) (hday : o.day.AtLowest)
    (hhour : o.hour.AtLowest) (hminute : o.minute.AtLowest) :
    IsLeast (o.Above .year) o.turnYear.shown := by
  refine ⟨⟨o.legal_shown, ?_⟩, ?_⟩
  · simp [Reading.downTo_year_lt_iff, shown, turnYear, Counter.advance]
  · intro r hr
    obtain ⟨⟨hm, hd, hh, hi⟩, hlt⟩ := hr
    have := hmonth _ hm
    have := hday _ hd
    have := hhour _ hh
    have := hminute _ hi
    rw [Reading.downTo_year_lt_iff] at hlt
    rw [← not_lt, Reading.lt_iff, Candidate.lt_iff]
    simp only [shown, turnYear, Counter.advance] at hlt ⊢
    omega

theorem turnMonth_isLeast (hday : o.day.AtLowest) (hhour : o.hour.AtLowest)
    (hminute : o.minute.AtLowest) : IsLeast (o.Above .month) o.turnMonth.shown := by
  let o' : Odometer := { o with month := o.month.advance }
  cases hw : o.month.wraps with
  | true =>
    obtain ⟨hmax, hlow⟩ := Dial.advance_of_wraps hw
    have hturn : o.turnMonth = o'.turnYear := by simp [turnMonth, hw, o']
    have habove : o.Above .month = o'.Above .year := by
      ext r
      apply and_congr_right
      intro hr
      have := hmax _ hr.1
      rw [Reading.downTo_month_lt_iff, Reading.downTo_year_lt_iff]
      simp only [shown, o']
      omega
    rw [hturn, habove]
    exact o'.turnYear_isLeast hlow hday hhour hminute
  | false =>
    obtain ⟨hlt, hleast⟩ := Dial.advance_of_not_wraps hw
    have hturn : o.turnMonth = o' := by simp [turnMonth, hw, o']
    rw [hturn]
    refine ⟨⟨o'.legal_shown, ?_⟩, ?_⟩
    · rw [Reading.downTo_month_lt_iff]
      exact Or.inr ⟨rfl, hlt⟩
    · intro r hr
      obtain ⟨⟨hm, hd, hh, hi⟩, hr⟩ := hr
      have := hleast _ hm
      have := hday _ hd
      have := hhour _ hh
      have := hminute _ hi
      rw [Reading.downTo_month_lt_iff] at hr
      rw [← not_lt, Reading.lt_iff, Candidate.lt_iff]
      simp only [shown, o'] at hr ⊢
      omega

theorem turnDay_isLeast (hhour : o.hour.AtLowest) (hminute : o.minute.AtLowest) :
    IsLeast (o.Above .day) o.turnDay.shown := by
  let o' : Odometer := { o with day := o.day.advance }
  cases hw : o.day.wraps with
  | true =>
    obtain ⟨hmax, hlow⟩ := Dial.advance_of_wraps hw
    have hturn : o.turnDay = o'.turnMonth := by simp [turnDay, hw, o']
    have habove : o.Above .day = o'.Above .month := by
      ext r
      apply and_congr_right
      intro hr
      have := hmax _ hr.2.1
      rw [Reading.downTo_day_lt_iff, Reading.downTo_month_lt_iff, Candidate.lt_iff]
      simp only [shown, o']
      omega
    rw [hturn, habove]
    exact o'.turnMonth_isLeast hlow hhour hminute
  | false =>
    obtain ⟨hlt, hleast⟩ := Dial.advance_of_not_wraps hw
    have hturn : o.turnDay = o' := by simp [turnDay, hw, o']
    rw [hturn]
    refine ⟨⟨o'.legal_shown, ?_⟩, ?_⟩
    · rw [Reading.downTo_day_lt_iff, Candidate.lt_iff]
      exact Or.inr ⟨rfl, Or.inr ⟨rfl, hlt⟩⟩
    · intro r hr
      obtain ⟨⟨_, hd, hh, hi⟩, hr⟩ := hr
      have := hleast _ hd
      have := hhour _ hh
      have := hminute _ hi
      rw [Reading.downTo_day_lt_iff, Candidate.lt_iff] at hr
      rw [← not_lt, Reading.lt_iff, Candidate.lt_iff]
      simp only [shown, o'] at hr ⊢
      omega

theorem turnHour_isLeast (hminute : o.minute.AtLowest) :
    IsLeast (o.Above .hour) o.turnHour.shown := by
  let o' : Odometer := { o with hour := o.hour.advance }
  cases hw : o.hour.wraps with
  | true =>
    obtain ⟨hmax, hlow⟩ := Dial.advance_of_wraps hw
    have hturn : o.turnHour = o'.turnDay := by simp [turnHour, hw, o']
    have habove : o.Above .hour = o'.Above .day := by
      ext r
      apply and_congr_right
      intro hr
      have hle := hmax _ hr.2.2.1
      rw [Reading.downTo_hour_lt_iff, Reading.downTo_day_lt_iff]
      exact or_iff_left fun h => absurd h.2 (not_lt.mpr hle)
    rw [hturn, habove]
    exact o'.turnDay_isLeast hlow hminute
  | false =>
    obtain ⟨hlt, hleast⟩ := Dial.advance_of_not_wraps hw
    have hturn : o.turnHour = o' := by simp [turnHour, hw, o']
    rw [hturn]
    refine ⟨⟨o'.legal_shown, ?_⟩, ?_⟩
    · rw [Reading.downTo_hour_lt_iff]
      exact Or.inr ⟨rfl, hlt⟩
    · intro r hr
      obtain ⟨⟨_, _, hh, hi⟩, hr⟩ := hr
      have hhour := hleast _ hh
      have hmin := hminute _ hi
      rw [← not_lt, Reading.lt_iff]
      rcases Reading.downTo_hour_lt_iff.mp hr with hdate | ⟨hdate, hgt⟩
      · rintro (h | ⟨h, _⟩)
        · exact lt_asymm hdate h
        · exact hdate.ne' h
      · rintro (h | ⟨_, h⟩)
        · exact h.ne' hdate
        · have := hhour hgt
          simp only [shown, o'] at h
          omega

theorem turnMinute_isLeast : IsLeast (o.Above .minute) o.turnMinute.shown := by
  let o' : Odometer := { o with minute := o.minute.advance }
  cases hw : o.minute.wraps with
  | true =>
    obtain ⟨hmax, hlow⟩ := Dial.advance_of_wraps hw
    have hturn : o.turnMinute = o'.turnHour := by simp [turnMinute, hw, o']
    have habove : o.Above .minute = o'.Above .hour := by
      ext r
      apply and_congr_right
      intro hr
      have hle := hmax _ hr.2.2.2
      rw [← Reading.lt_iff_downTo, Reading.lt_iff, Reading.downTo_hour_lt_iff]
      simp only [shown, o'] at hle ⊢
      refine or_congr_right (and_congr_right fun _ => or_iff_left ?_)
      exact fun h => absurd h.2 (not_lt.mpr hle)
    rw [hturn, habove]
    exact o'.turnHour_isLeast hlow
  | false =>
    obtain ⟨hlt, hleast⟩ := Dial.advance_of_not_wraps hw
    have hturn : o.turnMinute = o' := by simp [turnMinute, hw, o']
    rw [hturn]
    refine ⟨⟨o'.legal_shown, ?_⟩, ?_⟩
    · rw [← Reading.lt_iff_downTo, Reading.lt_iff]
      exact Or.inr ⟨rfl, Or.inr ⟨rfl, hlt⟩⟩
    · intro r hr
      obtain ⟨⟨_, _, _, hi⟩, hr⟩ := hr
      have hmin := hleast _ hi
      rw [← not_lt, Reading.lt_iff]
      rcases Reading.lt_iff.mp hr with hdate | ⟨hdate, hgt⟩
      · rintro (h | ⟨h, _⟩)
        · exact lt_asymm hdate h
        · exact hdate.ne' h
      · rintro (h | ⟨_, h⟩)
        · exact h.ne' hdate
        · simp only [shown, o'] at h hgt
          omega

end Turn

/-- Advancing a wheel is the least move upwards that this wheel or a slower one can see. -/
theorem advance_isLeast (o : Odometer) (w : Wheel) : IsLeast (o.Above w) (o.advance w).shown := by
  have hmonth := o.month.seek_zero_atLowest
  have hday := o.day.seek_zero_atLowest
  have hhour := o.hour.seek_zero_atLowest
  have hminute := o.minute.seek_zero_atLowest
  cases w with
  | minute => exact o.turnMinute_isLeast
  | hour => exact turnHour_isLeast (o.lowerBelow .hour) hminute
  | day => exact turnDay_isLeast (o.lowerBelow .day) hhour hminute
  | month => exact turnMonth_isLeast (o.lowerBelow .month) hday hhour hminute
  | year => exact turnYear_isLeast (o.lowerBelow .year) hmonth hday hhour hminute

theorem lt_advance (o : Odometer) (w : Wheel) : o.shown < (o.advance w).shown :=
  Reading.lt_of_downTo_lt (o.advance_isLeast w).1.2

/-- The legal readings that are not below the present one on the wheels from `w` up. -/
def NotBelow (o : Odometer) (w : Wheel) : Set Reading :=
  {r | o.Legal r ∧ ¬ r.downTo w < o.shown.downTo w}

theorem lowerBelow_isLeast (o : Odometer) (w : Wheel) :
    IsLeast (o.NotBelow w) (o.lowerBelow w).shown := by
  have hmonth := o.month.seek_zero_atLowest
  have hday := o.day.seek_zero_atLowest
  have hhour := o.hour.seek_zero_atLowest
  have hminute := o.minute.seek_zero_atLowest
  refine ⟨⟨legal_shown_of_masks_eq (o.lowerBelow_masks w), ?_⟩, ?_⟩
  · cases w <;> exact lt_irrefl _
  · intro r hr
    obtain ⟨⟨hm, hd, hh, hi⟩, hr⟩ := hr
    have := hmonth _ hm
    have := hday _ hd
    have := hhour _ hh
    have := hminute _ hi
    rw [← not_lt, Reading.lt_iff_digits]
    cases w with
    | minute =>
      rw [← Reading.lt_iff_downTo, Reading.lt_iff_digits] at hr
      exact hr
    | hour =>
      rw [Reading.downTo_hour_lt_iff_digits] at hr
      simp only [shown, lowerBelow] at hr ⊢
      omega
    | day =>
      rw [Reading.downTo_day_lt_iff, Candidate.lt_iff] at hr
      simp only [shown, lowerBelow] at hr ⊢
      omega
    | month =>
      rw [Reading.downTo_month_lt_iff] at hr
      simp only [shown, lowerBelow] at hr ⊢
      omega
    | year =>
      rw [Reading.downTo_year_lt_iff] at hr
      simp only [shown, lowerBelow] at hr ⊢
      omega

def From (o : Odometer) (r : Reading) : Set Reading :=
  {s | o.Legal s ∧ r ≤ s}

section Seek

variable {o : Odometer} {t : Moment}

theorem seekMinute_isLeast (hyear : o.year.value = t.date.year)
    (hmonth : o.month.value = t.date.month) (hday : o.day.value = t.date.day)
    (hhour : o.hour.value = t.hour) : IsLeast (o.From t.reading) (o.seekMinute t).shown := by
  let o' : Odometer := { o with minute := o.minute.seek t.minute }
  by_cases hlt : (o.minute.seek t.minute).value < t.minute
  · have hseek : o.seekMinute t = o'.advance .hour := by simp [seekMinute, hlt, o']
    have hall := o.minute.seek_of_lt t.minute (by exact_mod_cast hlt)
    have hfrom : o.From t.reading = o'.Above .hour := by
      ext r
      apply and_congr_right
      intro hr
      have := hall _ hr.2.2.2
      rw [← not_lt, Reading.lt_iff_digits, Reading.downTo_hour_lt_iff_digits]
      simp only [shown, Moment.reading, Date.candidate, o']
      omega
    rw [hseek, hfrom]
    exact o'.advance_isLeast .hour
  · have hseek : o.seekMinute t = o'.lowerBelow .minute := by
      simp [seekMinute, hlt, lowerBelow, o']
    have hle := o.minute.seek_le t.minute
    have hfrom : o.From t.reading = o'.NotBelow .minute := by
      ext r
      apply and_congr_right
      intro hr
      have := hle _ hr.2.2.2
      rw [← not_lt, ← Reading.lt_iff_downTo, Reading.lt_iff_digits, Reading.lt_iff_digits]
      simp only [shown, Moment.reading, Date.candidate, o']
      omega
    rw [hseek, hfrom]
    exact o'.lowerBelow_isLeast .minute

theorem seekHour_isLeast (hyear : o.year.value = t.date.year)
    (hmonth : o.month.value = t.date.month) (hday : o.day.value = t.date.day) :
    IsLeast (o.From t.reading) (o.seekHour t).shown := by
  let o' : Odometer := { o with hour := o.hour.seek t.hour }
  rcases lt_trichotomy (o.hour.seek t.hour).value t.hour with hlt | heq | hgt
  · have hseek : o.seekHour t = o'.advance .day := by simp [seekHour, hlt, o']
    have hall := o.hour.seek_of_lt t.hour (by exact_mod_cast hlt)
    have hfrom : o.From t.reading = o'.Above .day := by
      ext r
      apply and_congr_right
      intro hr
      have := hall _ hr.2.2.1
      rw [← not_lt, Reading.lt_iff_digits, Reading.downTo_day_lt_iff, Candidate.lt_iff]
      simp only [shown, Moment.reading, Date.candidate, o']
      omega
    rw [hseek, hfrom]
    exact o'.advance_isLeast .day
  · have hseek : o.seekHour t = o'.seekMinute t := by simp [seekHour, Dial.passes, heq, o']
    rw [hseek]
    exact seekMinute_isLeast (o := o') hyear hmonth hday heq
  · have hseek : o.seekHour t = o'.lowerBelow .hour := by
      simp [seekHour, Dial.passes, hgt, hgt.not_gt, o']
    have hle := o.hour.seek_le t.hour
    have hfrom : o.From t.reading = o'.NotBelow .hour := by
      ext r
      apply and_congr_right
      intro hr
      have := hle _ hr.2.2.1
      rw [← not_lt, Reading.lt_iff_digits, Reading.downTo_hour_lt_iff_digits]
      simp only [shown, Moment.reading, Date.candidate, o']
      omega
    rw [hseek, hfrom]
    exact o'.lowerBelow_isLeast .hour

theorem seekDay_isLeast (hyear : o.year.value = t.date.year)
    (hmonth : o.month.value = t.date.month) : IsLeast (o.From t.reading) (o.seekDay t).shown := by
  let o' : Odometer := { o with day := o.day.seek t.date.day }
  rcases lt_trichotomy (o.day.seek t.date.day).value t.date.day with hlt | heq | hgt
  · have hseek : o.seekDay t = o'.advance .month := by simp [seekDay, hlt, o']
    have hall := o.day.seek_of_lt t.date.day (by exact_mod_cast hlt)
    have hfrom : o.From t.reading = o'.Above .month := by
      ext r
      apply and_congr_right
      intro hr
      have := hall _ hr.2.1
      rw [← not_lt, Reading.lt_iff_digits, Reading.downTo_month_lt_iff]
      simp only [shown, Moment.reading, Date.candidate, o']
      omega
    rw [hseek, hfrom]
    exact o'.advance_isLeast .month
  · have hseek : o.seekDay t = o'.seekHour t := by simp [seekDay, Dial.passes, heq, o']
    rw [hseek]
    exact seekHour_isLeast (o := o') hyear hmonth heq
  · have hseek : o.seekDay t = o'.lowerBelow .day := by
      simp [seekDay, Dial.passes, hgt, hgt.not_gt, o']
    have hle := o.day.seek_le t.date.day
    have hfrom : o.From t.reading = o'.NotBelow .day := by
      ext r
      apply and_congr_right
      intro hr
      have := hle _ hr.2.1
      rw [← not_lt, Reading.lt_iff_digits, Reading.downTo_day_lt_iff, Candidate.lt_iff]
      simp only [shown, Moment.reading, Date.candidate, o']
      omega
    rw [hseek, hfrom]
    exact o'.lowerBelow_isLeast .day

theorem seekMonth_isLeast (hyear : o.year.value = t.date.year) :
    IsLeast (o.From t.reading) (o.seekMonth t).shown := by
  let o' : Odometer := { o with month := o.month.seek t.date.month }
  rcases lt_trichotomy (o.month.seek t.date.month).value t.date.month with hlt | heq | hgt
  · have hseek : o.seekMonth t = o'.advance .year := by simp [seekMonth, hlt, o']
    have hall := o.month.seek_of_lt t.date.month (by exact_mod_cast hlt)
    have hfrom : o.From t.reading = o'.Above .year := by
      ext r
      apply and_congr_right
      intro hr
      have := hall _ hr.1
      rw [← not_lt, Reading.lt_iff_digits, Reading.downTo_year_lt_iff]
      simp only [shown, Moment.reading, Date.candidate, o']
      omega
    rw [hseek, hfrom]
    exact o'.advance_isLeast .year
  · have hseek : o.seekMonth t = o'.seekDay t := by simp [seekMonth, Dial.passes, heq, o']
    rw [hseek]
    exact seekDay_isLeast (o := o') hyear heq
  · have hseek : o.seekMonth t = o'.lowerBelow .month := by
      simp [seekMonth, Dial.passes, hgt, hgt.not_gt, o']
    have hle := o.month.seek_le t.date.month
    have hfrom : o.From t.reading = o'.NotBelow .month := by
      ext r
      apply and_congr_right
      intro hr
      have := hle _ hr.1
      rw [← not_lt, Reading.lt_iff_digits, Reading.downTo_month_lt_iff]
      simp only [shown, Moment.reading, Date.candidate, o']
      omega
    rw [hseek, hfrom]
    exact o'.lowerBelow_isLeast .month

end Seek

/-- Seeking shows the least legal reading from the reference on, no year before `minYear`. -/
theorem seek_isLeast (o : Odometer) (minYear : ℤ) (t : Moment) :
    IsLeast {r ∈ o.From t.reading | minYear ≤ r.date.year} (o.seek minYear t).shown := by
  by_cases hlt : t.date.year < minYear
  · let o' : Odometer := { o with year := o.year.seek minYear }
    have hseek : o.seek minYear t = o'.lowerBelow .year := by simp [seek, hlt, o']
    have hset : {r ∈ o.From t.reading | minYear ≤ r.date.year} = o'.NotBelow .year := by
      ext r
      refine and_assoc.trans (and_congr_right fun _ => ?_)
      rw [← not_lt, Reading.lt_iff_digits, Reading.downTo_year_lt_iff]
      simp only [shown, Moment.reading, Date.candidate, Counter.seek, o']
      omega
    rw [hseek, hset]
    exact o'.lowerBelow_isLeast .year
  · let o' : Odometer := { o with year := o.year.seek t.date.year }
    have hseek : o.seek minYear t = o'.seekMonth t := by simp [seek, hlt, o']
    obtain ⟨hmem, hleast⟩ := seekMonth_isLeast (o := o') (t := t) rfl
    have hyear : t.date.year ≤ (o'.seekMonth t).shown.date.year :=
      Candidate.year_le (Reading.date_le hmem.2)
    rw [hseek]
    exact ⟨⟨hmem, (not_lt.mp hlt).trans hyear⟩, fun r hr => hleast hr.1⟩

end Crontab.Odometer
