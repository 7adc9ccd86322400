import Crontab.Proofs.Almanac
import Crontab.Proofs.Entry
import Crontab.Proofs.Successor
import Crontab.Search

/-! A search looks at the candidate dates one after another. It ends on the first accepted one,
or at the first one beyond the last year, or it gives up on the last one that the budget allows. -/
namespace Crontab

namespace Odometer

/-- The dates that the month and day wheels can show. -/
def Candidates (o : Odometer) : Set Candidate :=
  {c | o.month.Legal c.month ∧ o.day.Legal c.day}

variable (o : Odometer)

theorem legalDigits_day : o.legalDigits .day = Candidate.digits '' o.Candidates := by
  ext digits
  constructor
  · rintro ⟨r, hr, rfl⟩
    exact ⟨r.date, ⟨hr.1, hr.2.1⟩, rfl⟩
  · rintro ⟨c, hc, rfl⟩
    exact ⟨⟨c, o.hour.value, o.minute.value⟩,
      ⟨hc.1, hc.2, o.hour.legal_value, o.minute.legal_value⟩, rfl⟩

theorem candidates_visits : Visits o.Candidates fun k => (o.advanced .day k).shown.date := by
  have hvisits := o.advanced_visits .day
  rw [legalDigits_day] at hvisits
  have hdigits : StrictMono Candidate.digits := fun _ _ h => h
  exact hvisits.of_image hdigits

/-- With a month of the calendar, the day on the odometer is found exactly if it is accepted. -/
theorem date?_eq {o : Odometer} (weekdays : ℕ) {a : Almanac} (ha : a.Covers o.year.value)
    (hmonth : 1 ≤ o.month.value ∧ o.month.value ≤ 12) : o.date? weekdays a =
      .ok ((Date.of? o.year.value o.month.value o.day.value).filter
        fun d => weekdays.testBit d.weekday) := by
  have hlength := ha.monthLength _ hmonth
  unfold date?
  by_cases hday : 1 ≤ o.day.value ∧ o.day.value ≤ Calendar.daysIn o.year.value o.month.value
  · have hzero : o.day.value ≠ 0 := by omega
    have hlong := not_lt.mpr hday.2
    have hdate := ha.date ⟨o.year.value, o.month.value, o.day.value, hmonth, hday⟩ rfl
    have hexists : Date.of? o.year.value o.month.value o.day.value =
        some ⟨o.year.value, o.month.value, o.day.value, hmonth, hday⟩ := dif_pos ⟨hmonth, hday⟩
    rw [if_neg hzero, hlength, hexists]
    simp only [bind, Except.bind, if_neg hlong, hdate, Option.filter]
    rfl
  · have hnone : Date.of? o.year.value o.month.value o.day.value = none :=
      dif_neg fun h => hday h.2
    rw [hnone]
    split
    · rfl
    · have hlong : Calendar.daysIn o.year.value o.month.value < o.day.value := by omega
      rw [hlength]
      simp only [bind, Except.bind, if_pos hlong]
      rfl

/-- In the years of the settings, but not accepted. -/
def Rejected (settings : Settings) (weekdays : ℕ) (o : Odometer) : Prop :=
  settings.containsYear o.year.value = true ∧ o.date? weekdays = .ok none

end Odometer

namespace Search

variable (settings : Settings) (weekdays : ℕ)

/-- What a search reports about the odometer that it ends on. -/
def landing (o : Odometer) : Except SearchError (Option Date) :=
  if settings.containsYear o.year.value then (o.date? weekdays).mapError .refused else .ok none

theorem within_of_not_rejected {o : Odometer} (h : ¬ o.Rejected settings weekdays) (failed : ℕ) :
    within settings weekdays .gregorian failed o = ⟨o, landing settings weekdays o, []⟩ := by
  rw [within, landing]
  cases hyear : settings.containsYear o.year.value with
  | false => simp only [Bool.false_eq_true, if_false]
  | true =>
    simp only [if_true]
    cases hfound : o.date? weekdays with
    | error cause => rfl
    | ok found =>
      cases found with
      | some d => rfl
      | none => exact absurd ⟨hyear, hfound⟩ h

theorem within_of_rejected {o : Odometer} (h : o.Rejected settings weekdays) (failed : ℕ) :
    within settings weekdays .gregorian failed o =
      if settings.maxInvalidDates < failed + 1 then
        ⟨o, .error (.unsatisfiable (failed + 1) o.year.value o.month.value o.day.value),
          [.gaveUp (failed + 1) o.year.value o.month.value o.day.value]⟩
      else within settings weekdays .gregorian (failed + 1) (o.advance .day) := by
  rw [within, if_pos h.1, h.2]

/-- The search ends on the first odometer that is not rejected, or else gives up. Its steps are
counted from `failed` on, with `budget` left. -/
theorem within_cases (budget : ℕ) {failed : ℕ}
    (hbudget : failed + budget = settings.maxInvalidDates) (o : Odometer) :
    (∃ k ≤ budget, (∀ j < k, (o.advanced .day j).Rejected settings weekdays) ∧
      ¬ (o.advanced .day k).Rejected settings weekdays ∧
      within settings weekdays .gregorian failed o =
        ⟨o.advanced .day k, landing settings weekdays (o.advanced .day k), []⟩) ∨
    (∀ j ≤ budget, (o.advanced .day j).Rejected settings weekdays) ∧
      (within settings weekdays .gregorian failed o).odometer = o.advanced .day budget ∧
      (within settings weekdays .gregorian failed o).outcome = .error (.unsatisfiable
        (settings.maxInvalidDates + 1) (o.advanced .day budget).year.value
        (o.advanced .day budget).month.value (o.advanced .day budget).day.value) := by
  induction budget generalizing o failed with
  | zero =>
    by_cases hrej : o.Rejected settings weekdays
    · have hspent : settings.maxInvalidDates < failed + 1 := by omega
      rw [within_of_rejected settings weekdays hrej, if_pos hspent, ← hbudget]
      exact Or.inr ⟨fun j hj => Nat.le_zero.mp hj ▸ hrej, rfl, rfl⟩
    · exact Or.inl ⟨0, le_rfl, fun j hj => absurd hj j.not_lt_zero, hrej,
        within_of_not_rejected settings weekdays hrej failed⟩
  | succ budget ih =>
    by_cases hrej : o.Rejected settings weekdays
    · have hleft : ¬ settings.maxInvalidDates < failed + 1 := by omega
      have hshift := o.advanced_advance .day
      rw [within_of_rejected settings weekdays hrej, if_neg hleft]
      have hrest : failed + 1 + budget = settings.maxInvalidDates := by omega
      rcases ih hrest (o.advance .day) with ⟨k, hk, hall, hstop, heq⟩ | ⟨hall, hend⟩
      · rw [hshift] at hstop heq
        refine Or.inl ⟨k + 1, Nat.succ_le_succ hk, fun j hj => ?_, hstop, heq⟩
        cases j with
        | zero => exact hrej
        | succ j => exact hshift j ▸ hall j (Nat.lt_of_succ_lt_succ hj)
      · rw [hshift] at hend
        refine Or.inr ⟨fun j hj => ?_, hend⟩
        cases j with
        | zero => exact hrej
        | succ j => exact hshift j ▸ hall j (Nat.le_of_succ_le_succ hj)
    · exact Or.inl ⟨0, Nat.zero_le _, fun j hj => absurd hj j.not_lt_zero, hrej,
        within_of_not_rejected settings weekdays hrej _⟩

end Search

namespace Entry

/-- The dates that a search can look at: legal months and days from the first year on. Some of
them do not exist. -/
def candidates (e : Entry) (settings : Settings) : Set Candidate :=
  {c | settings.minYear ≤ c.year ∧ e.months.Allows c.month ∧ e.daysOfMonth.Allows c.day}

/-- The date exists and falls on an allowed weekday. -/
def Accepts (e : Entry) (c : Candidate) : Prop :=
  ∃ d : Date, d.candidate = c ∧ e.daysOfWeek.Allows d.weekday

/-- The candidate dates with the legal times of day. -/
def readings (e : Entry) (settings : Settings) : Set Reading :=
  {r | r.date ∈ e.candidates settings ∧ e.hours.Allows r.hour ∧ e.minutes.Allows r.minute}

/-- The readings that are occurrences. -/
def due (e : Entry) (settings : Settings) : Set Reading :=
  {r ∈ e.readings settings | e.Accepts r.date}

/-- The outcome that a search from a candidate date has to have. -/
def SearchEnds (e : Entry) (settings : Settings) (c : Candidate)
    (outcome : Except SearchError (Option Date)) : Prop :=
  ∃ xs, xs.length = settings.maxInvalidDates + 1 ∧
    ListsFirst {x ∈ e.candidates settings | c ≤ x} xs ∧
    match outcome with
    | .error cause =>
      (∀ x ∈ xs, x.year ≤ settings.maxYear ∧ ¬ e.Accepts x) ∧
      ∃ last, xs.getLast? = some last ∧ cause = .unsatisfiable (settings.maxInvalidDates + 1)
        last.year last.month last.day
    | .ok (some d) =>
      (¬ ∀ x ∈ xs, x.year ≤ settings.maxYear ∧ ¬ e.Accepts x) ∧
      IsLeast {x ∈ e.candidates settings | c ≤ x ∧ e.Accepts x} d.candidate ∧
      d.year ≤ settings.maxYear
    | .ok none =>
      (¬ ∀ x ∈ xs, x.year ≤ settings.maxYear ∧ ¬ e.Accepts x) ∧
      ∀ x ∈ e.candidates settings, c ≤ x → e.Accepts x → settings.maxYear < x.year

/-- A search that starts on an accepted date of the years of the settings does not give up. -/
theorem SearchEnds.of_accepts {e : Entry} {settings : Settings} {c : Candidate}
    {outcome : Except SearchError (Option Date)} (h : e.SearchEnds settings c outcome)
    (hc : c ∈ e.candidates settings) (haccepts : e.Accepts c) : ∃ d?, outcome = .ok d? := by
  cases outcome with
  | ok d? => exact ⟨d?, rfl⟩
  | error cause =>
    obtain ⟨xs, hlength, hfirst, hall, _⟩ := h
    have hne : xs ≠ [] := List.ne_nil_of_length_eq_add_one hlength
    exact absurd haccepts (hall c (hfirst.least_mem hne hc)).2

end Entry

namespace Odometer

/-- The wheels hold the legal values of the entry, and the year is not before the first one. -/
structure Serves (e : Entry) (settings : Settings) (o : Odometer) : Prop where
  year : settings.minYear ≤ o.year.value
  month : ∀ v : ℕ, o.month.Legal v ↔ e.months.Allows v
  day : ∀ v : ℕ, o.day.Legal v ↔ e.daysOfMonth.Allows v
  hour : ∀ v : ℕ, o.hour.Legal v ↔ e.hours.Allows v
  minute : ∀ v : ℕ, o.minute.Legal v ↔ e.minutes.Allows v

namespace Serves

variable {e : Entry} {settings : Settings} {o o' : Odometer} (h : o.Serves e settings)
include h

theorem of_masks_eq (hmasks : o'.masks = o.masks) (hyear : settings.minYear ≤ o'.year.value) :
    o'.Serves e settings := by
  simp only [masks, List.cons.injEq] at hmasks
  obtain ⟨hmonth, hday, hhour, hminute, _⟩ := hmasks
  refine ⟨hyear, ?_, ?_, ?_, ?_⟩ <;> intro v <;> simp only [Dial.Legal]
  · exact hmonth ▸ h.month v
  · exact hday ▸ h.day v
  · exact hhour ▸ h.hour v
  · exact hminute ▸ h.minute v

theorem legal_iff (r : Reading) (hr : settings.minYear ≤ r.date.year) :
    o.Legal r ↔ r ∈ e.readings settings := by
  simp only [Legal, h.month, h.day, h.hour, h.minute, Entry.readings, Entry.candidates,
    Set.mem_ofPred_eq, hr, true_and, and_assoc]

theorem shown_mem : o.shown ∈ e.readings settings :=
  (h.legal_iff _ h.year).mp o.legal_shown

theorem advance (w : Wheel) : (o.advance w).Serves e settings := by
  refine h.of_masks_eq (o.advance_masks w) (h.year.trans ?_)
  exact Candidate.year_le (Reading.date_le (o.lt_advance w).le)

theorem advance_minute_isLeast :
    IsLeast {r ∈ e.readings settings | o.shown < r} (o.advance .minute).shown := by
  refine ⟨⟨(h.advance .minute).shown_mem, o.lt_advance .minute⟩, ?_⟩
  intro r hr
  obtain ⟨hr, hlt⟩ := hr
  exact (o.advance_isLeast .minute).2 ⟨(h.legal_iff r hr.1.1).mpr hr, hlt⟩

theorem seek (t : Moment) : (o.seek settings.minYear t).Serves e settings :=
  h.of_masks_eq (o.seek_masks settings.minYear t) (o.seek_isLeast settings.minYear t).1.2

theorem seek_isLeast (t : Moment) : IsLeast {r ∈ e.readings settings | t.reading ≤ r}
    (o.seek settings.minYear t).shown := by
  obtain ⟨hmem, hleast⟩ := o.seek_isLeast settings.minYear t
  refine ⟨⟨(h.seek t).shown_mem, hmem.1.2⟩, ?_⟩
  intro r hr
  obtain ⟨hr, hle⟩ := hr
  exact hleast ⟨⟨(h.legal_iff r hr.1.1).mpr hr, hle⟩, hr.1.1⟩

theorem advanced (k : ℕ) : (o.advanced .day k).Serves e settings := by
  refine h.of_masks_eq (o.advanced_masks .day k) (h.year.trans ?_)
  exact Candidate.year_le (o.candidates_visits.strictMono.monotone k.zero_le)

/-- With an existing date, what the wheels show is the reading of a full minute. -/
theorem exists_moment (he : e.WithinDomains) {d : Date} (hd : d.candidate = o.shown.date)
    (offset : Option ℤ) :
    ∃ t : Moment, t.date = d ∧ t.offset = offset ∧ t.IsFull ∧ o.shown = t.reading := by
  have hlegal := h.shown_mem
  refine ⟨{ date := d, hour := o.hour.value, minute := o.minute.value, offset,
            hour_lt := he.hour_lt hlegal.2.1, minute_lt := he.minute_lt hlegal.2.2 },
    rfl, rfl, ⟨rfl, rfl⟩, ?_⟩
  rw [Moment.reading, hd]
  rfl

theorem mem_candidates_iff {x : Candidate} (hx : o.shown.date ≤ x) :
    x ∈ o.Candidates ↔ x ∈ e.candidates settings := by
  have hyear : settings.minYear ≤ x.year := h.year.trans (Candidate.year_le hx)
  simp only [Candidates, Entry.candidates, Set.mem_ofPred_eq, h.month, h.day, hyear, true_and]

theorem listsFirst_candidates (n : ℕ) :
    ListsFirst {x ∈ e.candidates settings | o.shown.date ≤ x}
      ((List.range n).map fun k => (o.advanced .day k).shown.date) := by
  have hset : {x ∈ e.candidates settings | o.shown.date ≤ x} =
      {x ∈ o.Candidates | o.shown.date ≤ x} :=
    Set.ext fun x => and_congr_left fun hx => (h.mem_candidates_iff hx).symm
  rw [hset]
  exact o.candidates_visits.listsFirst n

/-- The first accepted date, as a reading: its time of day is the present one on the present
date, and the lowest one on a later date. -/
theorem advanced_isLeast_due {k : ℕ} (hk : e.Accepts (o.advanced .day k).shown.date)
    (hfirst : ∀ j < k, ¬ e.Accepts (o.advanced .day j).shown.date) :
    IsLeast {r ∈ e.due settings | o.shown ≤ r} (o.advanced .day k).shown := by
  cases k with
  | zero => exact ⟨⟨⟨h.shown_mem, hk⟩, le_rfl⟩, fun r hr => hr.2⟩
  | succ k =>
    obtain ⟨⟨_, hlt⟩, hleast⟩ := o.advanced_succ_isLeast .day k
    rw [Reading.downTo_day_lt_iff] at hlt
    have hle : o.shown.date ≤ (o.advanced .day k).shown.date :=
      o.candidates_visits.strictMono.monotone k.zero_le
    refine ⟨⟨⟨(h.advanced _).shown_mem, hk⟩, (Reading.lt_of_date_lt (hle.trans_lt hlt)).le⟩, ?_⟩
    intro r hr
    obtain ⟨⟨hr, haccepts⟩, hfrom⟩ := hr
    refine hleast ⟨(h.legal_iff r hr.1.1).mpr hr, ?_⟩
    by_contra hge
    have hmem : r.date ∈ o.Candidates :=
      (h.mem_candidates_iff (Reading.date_le hfrom)).mpr hr.1
    obtain ⟨j, hj, heq⟩ :=
      o.candidates_visits.exists_eq hmem (Reading.date_le hfrom) (not_lt.mp hge)
    exact hfirst j (Nat.lt_succ_of_le hj) (heq ▸ haccepts)

end Serves

end Odometer

namespace Search

variable {e : Entry} {settings : Settings} {weekdays : ℕ} {o : Odometer}

/-- A search over the wheels and weekdays of an entry. -/
structure Over (e : Entry) (settings : Settings) (weekdays : ℕ) (o : Odometer) : Prop where
  withinDomains : e.WithinDomains
  serves : o.Serves e settings
  weekdays : ∀ v : ℕ, weekdays.testBit v = true ↔ e.daysOfWeek.Allows v

namespace Over

variable (h : Over e settings weekdays o)
include h

theorem advanced (k : ℕ) : Over e settings weekdays (o.advanced .day k) :=
  ⟨h.withinDomains, h.serves.advanced k, h.weekdays⟩

theorem containsYear_iff : settings.containsYear o.year.value = true ↔
    o.shown.date.year ≤ settings.maxYear := by
  have hyear := h.serves.year
  simp only [Settings.containsYear, Bool.and_eq_true, decide_eq_true_eq, hyear, true_and]
  rfl

theorem month_bounds : 1 ≤ o.month.value ∧ o.month.value ≤ 12 :=
  h.withinDomains.month_bounds ((h.serves.month _).mp o.month.legal_value)

theorem covers (hyear : o.shown.date.year ≤ settings.maxYear) :
    Almanac.gregorian.Covers o.year.value :=
  Almanac.gregorian_covers ⟨settings.window.1.trans h.serves.year, hyear.trans settings.window.2.2⟩

theorem date?_eq (hyear : o.shown.date.year ≤ settings.maxYear) :
    ∃ d?, o.date? weekdays = .ok d? ∧
      ∀ d, d? = some d ↔ d.candidate = o.shown.date ∧ e.daysOfWeek.Allows d.weekday := by
  refine ⟨_, Odometer.date?_eq weekdays (h.covers hyear) h.month_bounds, fun d => ?_⟩
  rw [Option.filter_eq_some_iff, ← h.weekdays]
  exact and_congr_left fun _ => Date.of?_eq_some_iff (c := o.shown.date)

theorem rejected_iff : o.Rejected settings weekdays ↔
    o.shown.date.year ≤ settings.maxYear ∧ ¬ e.Accepts o.shown.date := by
  rw [Odometer.Rejected, h.containsYear_iff]
  apply and_congr_right
  intro hyear
  obtain ⟨d?, hd?, hiff⟩ := h.date?_eq hyear
  rw [hd?, Except.ok.injEq, Entry.Accepts, Option.eq_none_iff_forall_ne_some, not_exists]
  exact forall_congr' fun d => not_congr (hiff d)

theorem landing_eq (hstop : ¬ o.Rejected settings weekdays) :
    (o.shown.date.year ≤ settings.maxYear ∧ ∃ d : Date, d.candidate = o.shown.date ∧
      e.daysOfWeek.Allows d.weekday ∧ landing settings weekdays o = .ok (some d)) ∨
    settings.maxYear < o.shown.date.year ∧ landing settings weekdays o = .ok none := by
  rw [landing]
  by_cases hyear : o.shown.date.year ≤ settings.maxYear
  · obtain ⟨d?, hd?, hiff⟩ := h.date?_eq hyear
    rw [if_pos (h.containsYear_iff.mpr hyear), hd?]
    cases d? with
    | none => exact absurd ⟨h.containsYear_iff.mpr hyear, hd?⟩ hstop
    | some d =>
      obtain ⟨hd, hweekday⟩ := (hiff d).mp rfl
      exact Or.inl ⟨hyear, d, hd, hweekday, rfl⟩
  · rw [if_neg (mt h.containsYear_iff.mp hyear)]
    exact Or.inr ⟨not_le.mp hyear, rfl⟩

/-- The ways of a search: it stops on the first candidate that is not rejected, with a date or
beyond the last year, or it gives up. -/
theorem run_cases :
    (∃ k ≤ settings.maxInvalidDates,
      (∀ j < k, (o.advanced .day j).shown.date.year ≤ settings.maxYear ∧
        ¬ e.Accepts (o.advanced .day j).shown.date) ∧
      (run settings weekdays o).odometer = o.advanced .day k ∧
      (((o.advanced .day k).shown.date.year ≤ settings.maxYear ∧
          ∃ d : Date, d.candidate = (o.advanced .day k).shown.date ∧ e.daysOfWeek.Allows d.weekday ∧
            (run settings weekdays o).outcome = .ok (some d)) ∨
        settings.maxYear < (o.advanced .day k).shown.date.year ∧
          (run settings weekdays o).outcome = .ok none)) ∨
    (∀ j ≤ settings.maxInvalidDates, (o.advanced .day j).shown.date.year ≤ settings.maxYear ∧
      ¬ e.Accepts (o.advanced .day j).shown.date) ∧
    (run settings weekdays o).odometer = o.advanced .day settings.maxInvalidDates ∧
    (run settings weekdays o).outcome = .error (.unsatisfiable (settings.maxInvalidDates + 1)
      (o.advanced .day settings.maxInvalidDates).year.value
      (o.advanced .day settings.maxInvalidDates).month.value
      (o.advanced .day settings.maxInvalidDates).day.value) := by
  have hrejected := fun j => (h.advanced j).rejected_iff
  rcases within_cases settings weekdays settings.maxInvalidDates (Nat.zero_add _) o with
    ⟨k, hk, hall, hstop, heq⟩ | ⟨hall, hodometer, houtcome⟩
  · have hland := (h.advanced k).landing_eq hstop
    refine Or.inl ⟨k, hk, fun j hj => (hrejected j).mp (hall j hj), ?_⟩
    rw [run, heq]
    exact ⟨rfl, hland⟩
  · exact Or.inr ⟨fun j hj => (hrejected j).mp (hall j hj), hodometer, houtcome⟩

theorem run_ends : e.SearchEnds settings o.shown.date (run settings weekdays o).outcome := by
  refine ⟨_, by simp, h.serves.listsFirst_candidates (settings.maxInvalidDates + 1), ?_⟩
  have hvisits := o.candidates_visits
  have hmem : ∀ k ≤ settings.maxInvalidDates, (o.advanced .day k).shown.date ∈
      (List.range (settings.maxInvalidDates + 1)).map fun k => (o.advanced .day k).shown.date :=
    fun k hk => List.mem_map.mpr ⟨k, List.mem_range.mpr (Nat.lt_succ_of_le hk), rfl⟩
  rcases h.run_cases with ⟨k, hk, hfirst, _, ⟨hyear, d, hd, hweekday, hout⟩ | ⟨hyear, hout⟩⟩ |
    ⟨hall, _, hout⟩ <;> rw [hout]
  · have haccepts : e.Accepts (o.advanced .day k).shown.date := ⟨d, hd, hweekday⟩
    refine ⟨fun hspent => (hspent _ (hmem k hk)).2 haccepts, ?_, ?_⟩
    · rw [hd]
      obtain ⟨hk', hleast⟩ := hvisits.isLeast_of_first haccepts fun j hj => (hfirst j hj).2
      refine ⟨⟨(h.serves.mem_candidates_iff hk'.2.1).mp hk'.1, hk'.2⟩, fun x hx => ?_⟩
      exact hleast ⟨(h.serves.mem_candidates_iff hx.2.1).mpr hx.1, hx.2⟩
    · exact (congrArg Candidate.year hd).trans_le hyear
  · refine ⟨fun hspent => not_lt.mpr (hspent _ (hmem k hk)).1 hyear, ?_⟩
    intro x hx hle haccepts
    by_contra hxyear
    have hlt : x < (o.advanced .day k).shown.date :=
      Candidate.lt_iff.mpr (Or.inl ((not_lt.mp hxyear).trans_lt hyear))
    obtain ⟨j, hj, rfl⟩ :=
      hvisits.exists_eq ((h.serves.mem_candidates_iff hle).mpr hx) hle hlt.le
    rcases hj.eq_or_lt with rfl | hj
    · exact hlt.false
    · exact (hfirst j hj).2 haccepts
  · refine ⟨?_, (o.advanced .day settings.maxInvalidDates).shown.date, ?_, rfl⟩
    · intro x hx
      obtain ⟨j, hj, rfl⟩ := List.mem_map.mp hx
      exact hall j (Nat.le_of_lt_succ (List.mem_range.mp hj))
    · simp [List.range_succ]

end Over

end Search

end Crontab
