import Crontab.Proofs.Cursor

/-! The calls over an almanac that refuses what lies outside the years of the settings, and to
compare moments with different offsets. For an entry that has been read no question is refused, and
a call fails only when a search gives up. -/
namespace Crontab

namespace Almanac

/-- Only the years of the settings, and only comparisons with one offset. -/
def strict (settings : Settings) : Almanac where
  monthLength year month :=
    if settings.containsYear year then gregorian.monthLength year month else .error (.year year)
  date year month day :=
    if settings.containsYear year then gregorian.date year month day else .error (.year year)
  moment year month day hour minute offset :=
    if settings.containsYear year then gregorian.moment year month day hour minute offset
    else .error (.year year)
  before s t := if s.offset = t.offset then .ok (decide (s < t)) else .error .mixedOffsets

/-- The almanac answers what is asked of it in the years of the settings. -/
structure Answers (a : Almanac) (settings : Settings) : Prop where
  covers : ∀ year, settings.containsYear year = true → a.Covers year
  compares : a.Compares

theorem gregorian_answers (settings : Settings) : gregorian.Answers settings := by
  refine ⟨fun year hyear => gregorian_covers ?_, gregorian_compares⟩
  simp only [Settings.containsYear, Bool.and_eq_true, decide_eq_true_eq] at hyear
  have hwindow := settings.window
  omega

theorem strict_answers (settings : Settings) : (strict settings).Answers settings := by
  refine ⟨fun year hyear => ?_, fun s t hoffset => if_pos hoffset⟩
  have hcovers := (gregorian_answers settings).covers year hyear
  refine ⟨fun month hmonth => ?_, fun d hd => ?_, fun t hfull ht => ?_⟩
  · exact (if_pos hyear).trans (hcovers.monthLength month hmonth)
  · exact (if_pos hyear).trans (hcovers.date d hd)
  · exact (if_pos hyear).trans (hcovers.moment t hfull ht)

end Almanac

variable {e : Entry} {settings : Settings} {a : Almanac} (ha : a.Answers settings)
include ha

namespace Search

variable {weekdays : ℕ} {o : Odometer}

theorem Over.date?_congr (h : Over e settings weekdays o)
    (hyear : settings.containsYear o.year.value = true) :
    o.date? weekdays a = o.date? weekdays := by
  have hgregorian := (Almanac.gregorian_answers settings).covers _ hyear
  rw [Odometer.date?_eq weekdays (ha.covers _ hyear) h.month_bounds,
    Odometer.date?_eq weekdays hgregorian h.month_bounds]

theorem within_congr (failed : ℕ) (h : Over e settings weekdays o) :
    within settings weekdays a failed o = within settings weekdays .gregorian failed o := by
  induction hn : settings.maxInvalidDates - failed using Nat.strong_induction_on
      generalizing failed o with
  | h n ih =>
    have hrest (hleft : ¬ settings.maxInvalidDates < failed + 1) :
        within settings weekdays a (failed + 1) (o.advance .day) =
          within settings weekdays .gregorian (failed + 1) (o.advance .day) :=
      ih _ (by omega) (failed + 1) (h.advanced 1) rfl
    unfold within
    by_cases hyear : settings.containsYear o.year.value = true
    · rw [if_pos hyear, if_pos hyear, h.date?_congr ha hyear]
      cases o.date? weekdays with
      | error cause => rfl
      | ok d? =>
        cases d? with
        | some d => rfl
        | none =>
          by_cases hleft : settings.maxInvalidDates < failed + 1
          · simp only [if_pos hleft]
          · simp only [if_neg hleft]
            exact hrest hleft
    · rw [if_neg hyear, if_neg hyear]

end Search

section Session

variable (he : e.WithinDomains) {s : Session}
include he

/-- The wheels of a search that has found a date make the same moment under both almanacs. -/
theorem Session.settle_congr (hs : s.Serves e settings) : s.settle a = s.settle := by
  have hrun : Search.run s.settings s.weekdays s.odometer a =
      Search.run s.settings s.weekdays s.odometer := by
    rw [hs.settings_eq]
    exact Search.within_congr ha 0 (hs.over he)
  have hcases := (hs.over he).run_cases
  rw [← hs.settings_eq] at hcases
  unfold settle
  rw [hrun]
  dsimp only
  rcases hcases with ⟨k, _, _, hodometer, ⟨hyear, d, hd, _, hout⟩ | ⟨_, hout⟩⟩ | ⟨_, _, hout⟩
  · have hcontains := ((hs.over he).advanced k).containsYear_iff.mpr (hs.settings_eq ▸ hyear)
    obtain ⟨t, _, hoffset, hfull, hshown⟩ :=
      (hs.odometer.advanced k).exists_moment he hd s.offset
    have hmoment := (ha.covers _ hcontains).moment_of_shown hfull hshown
    have hgregorian := (Almanac.gregorian_answers settings).covers _ hcontains
    rw [hout, hodometer, ← hoffset]
    simp only
    rw [hmoment, hgregorian.moment_of_shown hfull hshown]
  · rw [hout]
  · rw [hout]

theorem Session.next_congr (hs : s.Serves e settings) : s.next a = s.next := by
  have hsettle := settle_congr ha he (hs.advance .minute)
  unfold next
  rw [hsettle]

theorem Step.skip_congr {wanted wanted' : Moment → Except AlmanacError Bool} {offset : Option ℤ}
    (hwanted : ∀ c : Moment, c.offset = offset → wanted' c = wanted c) (fuel : ℕ) {step : Step}
    (hs : step.session.Serves e settings) (hcarries : step.Carries offset) :
    skip wanted' a fuel step = skip wanted .gregorian fuel step := by
  induction fuel generalizing step with
  | zero => rfl
  | succ fuel ih =>
    rw [skip, skip]
    cases hresult : step.result with
    | error cause => rfl
    | ok c =>
      cases c with
      | none => rfl
      | some t =>
        simp only
        rw [hwanted t (hcarries.result t hresult), Session.next_congr ha he hs]
        cases wanted t with
        | error cause => rfl
        | ok b =>
          cases b with
          | true => rfl
          | false => exact ih (Session.next_serves he hs) hcarries.further

theorem Session.reset_congr (hs : s.Serves e settings) (t : Moment) : s.reset t a = s.reset t := by
  have haligned := hs.aligned t
  have hsettle : (s.aligned t).settle a = (s.aligned t).settle := settle_congr ha he haligned
  have hwanted (c : Moment) (hc : c.offset = t.offset) :
      a.reaches t c = Almanac.gregorian.reaches t c := by
    rw [ha.compares.reaches_eq hc, Almanac.gregorian_compares.reaches_eq hc]
  have hskip : (s.aligned t).settle.skipTo (a.reaches t) t a =
      (s.aligned t).settle.skipTo (Almanac.gregorian.reaches t) t := by
    unfold Step.skipTo
    cases (s.aligned t).settle.result with
    | error cause => rfl
    | ok c =>
      cases c with
      | none => rfl
      | some u =>
        exact Step.skip_congr ha he hwanted _ (settle_serves he haligned)
          (settle_carries (s.aligned t))
  show (((s.aligned t).settle a).skipTo (a.reaches t) t a).reportsReset t = _
  rw [hsettle, hskip]
  rfl

theorem Session.call_congr (hs : s.Serves e settings) (c : Call) : s.call c a = s.call c := by
  cases c with
  | reset t => exact reset_congr ha he hs t
  | next => exact next_congr ha he hs

end Session

omit ha

namespace Session

/-- An entry that has been read has sessions. In each of their states a call asks only what the
strict almanac answers, and it can fail only because its search gives up. -/
theorem reachable_call_strict {line : String} {e : Entry} (h : Entry.read line = .ok e)
    (settings : Settings) : (∃ s, start e settings = .ok s) ∧
    ∀ s, Reachable e settings s → ∀ c : Call, s.call c (.strict settings) = s.call c ∧
      ∀ cause, (s.call c).result = .error cause →
        ∃ attempts year month day, cause = .unsatisfiable attempts year month day := by
  have he := Entry.read_withinDomains h
  obtain ⟨s, hs, _⟩ := start_eq_ok he settings
  refine ⟨⟨s, hs⟩, fun s hs c => ⟨?_, fun cause => ?_⟩⟩
  · exact call_congr (Almanac.strict_answers settings) he (hs.serves he) c
  · exact call_error_eq he (hs.serves he) c

/-- In the last year a step fails at the 31st of February. The step after it turns the wheels on
to the year 10000, for which nothing is asked. From there a reset with an offset returns to the last
occurrence, which it compares with its reference. -/
theorem reachable_call_strict_last_year : ∃ (e : Entry) (settings : Settings) (s : Session)
    (t : Moment), Entry.read "0 0 30,31 1,2 *" = .ok e ∧ settings.maxInvalidDates = 1 ∧
    Reachable e settings s ∧ (s.call .next).result = .error (.unsatisfiable 2 9999 2 31) ∧
    s.call .next (.strict settings) = s.call .next ∧
    ∃ step, (s.call .next).session.call .next (.strict settings) = step ∧
      step.result = .ok none ∧ step.session.odometer.reading = [10000, 1, 30, 0, 0] ∧
      t.offset = some 60 ∧
      (step.session.call (.reset t) (.strict settings)).result = .ok (some t) := by
  let settings : Settings := { maxInvalidDates := 1 }
  let t : Moment :=
    { date := ⟨9999, 1, 31, by decide, by decide⟩, hour := 0, minute := 0, offset := some 60,
      hour_lt := by decide, minute_lt := by decide }
  have hrun : testStart "0 0 30,31 1,2 *" settings (fun s =>
      let first := (s.reset t).session.next
      let second := first.session.next
      decide (first.result = .error (.unsatisfiable 2 9999 2 31)) &&
        decide (second.result = .ok none) &&
        decide (second.session.odometer.reading = [10000, 1, 30, 0, 0]) &&
        decide ((second.session.reset t).result = .ok (some t))) = true := by
    decide +kernel
  obtain ⟨e, s, he, hs, htest⟩ := exists_of_testStart hrun
  simp only [Bool.and_eq_true, decide_eq_true_eq] at htest
  obtain ⟨⟨⟨hfirst, hsecond⟩, hreading⟩, hthird⟩ := htest
  obtain ⟨_, hstrict⟩ := reachable_call_strict he settings
  have hreset := (Reachable.start hs).reset t
  refine ⟨e, settings, _, t, he, rfl, hreset, hfirst, (hstrict _ hreset .next).1, _,
    (hstrict _ hreset.next .next).1, hsecond, hreading, rfl, ?_⟩
  have hlast := (hstrict _ hreset.next.next (.reset t)).1
  exact (congrArg Step.result hlast).trans hthird

end Session

end Crontab
