import Crontab.Proofs.Search
import Crontab.Session

/-! The calls of a session. Each of them is a search from the least legal reading beyond a
reference, and an occurrence that it returns is the least one there. -/
namespace Crontab

/-- The step is a search from a reading: it finds a date, and the current occurrence follows. -/
structure Step.SearchesFrom (e : Entry) (settings : Settings) (r : Reading) (step : Step) :
    Prop where
  outcome : e.SearchEnds settings r.date (step.result.map (·.map Moment.date))
  current : ∀ c, step.result = .ok c → step.session.current = c

namespace Session

/-- The wheels and the weekdays of the session hold the legal values of the entry. -/
structure Serves (e : Entry) (settings : Settings) (s : Session) : Prop where
  settings_eq : s.settings = settings
  odometer : s.odometer.Serves e settings
  weekdays : ∀ v : ℕ, s.weekdays.testBit v = true ↔ e.daysOfWeek.Allows v

/-- The session stands on an occurrence: the odometer shows it, and it is a full minute. -/
structure Holds (s : Session) (t : Moment) : Prop where
  current : s.current = some t
  shown : s.odometer.shown = t.reading
  second : t.second = 0
  microsecond : t.microsecond = 0
  offset : t.offset = s.offset

end Session

/-- The step returns the least reading of a set as its occurrence, or nothing when all readings
of the set lie beyond the last year. -/
def Step.Finds (settings : Settings) (S : Set Reading) (step : Step) : Prop :=
  match step.result with
  | .error _ => True
  | .ok none => step.session.current = none ∧ ∀ r ∈ S, settings.maxYear < r.date.year
  | .ok (some t) =>
    step.session.Holds t ∧ IsLeast S t.reading ∧ t.date.year ≤ settings.maxYear

/-- The session has the offset, and the occurrence has it if one is returned. -/
structure Step.Carries (offset : Option ℤ) (step : Step) : Prop where
  session : step.session.offset = offset
  result : ∀ t, step.result = .ok (some t) → t.offset = offset

theorem Step.SearchesFrom.of_eq {e : Entry} {settings : Settings} {r : Reading} {step step' : Step}
    (h : step.SearchesFrom e settings r) (hsession : step'.session = step.session)
    (hresult : step'.result = step.result) : step'.SearchesFrom e settings r :=
  ⟨hresult ▸ h.outcome, hsession ▸ hresult ▸ h.current⟩

theorem Step.Carries.of_eq {offset : Option ℤ} {step step' : Step} (h : step.Carries offset)
    (hsession : step'.session = step.session) (hresult : step'.result = step.result) :
    step'.Carries offset :=
  ⟨hsession ▸ h.session, hresult ▸ h.result⟩

theorem Step.Finds.of_eq {settings : Settings} {S : Set Reading} {step step' : Step}
    (h : step.Finds settings S) (hsession : step'.session = step.session)
    (hresult : step'.result = step.result) : step'.Finds settings S := by
  unfold Step.Finds
  rw [hsession, hresult]
  exact h

namespace Step

variable (step : Step)

def reportsEnd (lastYear : ℤ) : Step :=
  match step.result with
  | .ok none => { step with log := step.log ++ [.exhausted lastYear] }
  | _ => step

def reportsReset (t : Moment) : Step :=
  match step.result with
  | .ok c => { step with log := step.log ++ [.reset t c] }
  | .error _ => step

@[simp] theorem session_reportsEnd (lastYear : ℤ) :
    (step.reportsEnd lastYear).session = step.session := by
  unfold reportsEnd
  split <;> rfl

@[simp] theorem result_reportsEnd (lastYear : ℤ) :
    (step.reportsEnd lastYear).result = step.result := by
  unfold reportsEnd
  split <;> rfl

@[simp] theorem session_reportsReset (t : Moment) :
    (step.reportsReset t).session = step.session := by
  unfold reportsReset
  split <;> rfl

@[simp] theorem result_reportsReset (t : Moment) : (step.reportsReset t).result = step.result := by
  unfold reportsReset
  split <;> rfl

end Step

namespace Session

variable {e : Entry} {settings : Settings} {s : Session}

theorem dialOf_eq_ok {f : Field} {m : ℕ} (hm : f.mask = .ok m) (hne : m ≠ 0)
    (hlt : m < 2 ^ 64) : ∃ d, dialOf f = .ok d ∧ d.mask = m := by
  obtain ⟨d, hd, hmask⟩ := Dial.ofMask_eq_ok hne hlt
  refine ⟨d, ?_, hmask⟩
  rw [dialOf, maskOf, hm]
  simp only [bind, Except.bind, hd]
  rfl

/-- An entry within its domains has a session, and it starts without an occurrence. -/
theorem start_eq_ok (he : e.WithinDomains) (settings : Settings) :
    ∃ s, start e settings = .ok s ∧ s.Serves e settings ∧ s.current = none := by
  obtain ⟨_, hminutes, hne, hlt, hminute⟩ := he.mask .minute
  obtain ⟨minute, hminuteDial, rfl⟩ := dialOf_eq_ok hminutes hne hlt
  obtain ⟨_, hhours, hne, hlt, hhour⟩ := he.mask .hour
  obtain ⟨hour, hhourDial, rfl⟩ := dialOf_eq_ok hhours hne hlt
  obtain ⟨_, hdays, hne, hlt, hday⟩ := he.mask .dayOfMonth
  obtain ⟨day, hdayDial, rfl⟩ := dialOf_eq_ok hdays hne hlt
  obtain ⟨_, hmonths, hne, hlt, hmonth⟩ := he.mask .month
  obtain ⟨month, hmonthDial, rfl⟩ := dialOf_eq_ok hmonths hne hlt
  obtain ⟨weekdays, hweekdays, hne, _, hweekday⟩ := he.mask .dayOfWeek
  have hmask : maskOf e.daysOfWeek = .ok weekdays := by
    rw [maskOf, show e.daysOfWeek.mask = .ok weekdays from hweekdays]
  refine ⟨⟨settings, ⟨⟨settings.minYear⟩, month, day, hour, minute⟩, weekdays, none, none⟩,
    ?_, ⟨rfl, ⟨le_rfl, hmonth, hday, hhour, hminute⟩, hweekday⟩, rfl⟩
  simp only [Entry.field] at hminuteDial hhourDial hdayDial hmonthDial
  rw [start, hminuteDial, hhourDial, hdayDial, hmonthDial, hmask]
  simp only [bind, Except.bind, if_neg hne]
  rfl

theorem Serves.over (hs : s.Serves e settings) (he : e.WithinDomains) :
    Search.Over e settings s.weekdays s.odometer :=
  ⟨he, hs.odometer, hs.weekdays⟩

theorem Serves.advance (hs : s.Serves e settings) (w : Wheel) :
    Session.Serves e settings { s with odometer := s.odometer.advance w } :=
  ⟨hs.settings_eq, hs.odometer.advance w, hs.weekdays⟩

theorem settle_carries (s : Session) : s.settle.Carries s.offset := by
  unfold settle
  dsimp only
  cases (Search.run s.settings s.weekdays s.odometer).outcome with
  | error cause => exact ⟨rfl, fun t ht => nomatch ht⟩
  | ok d? =>
    cases d? with
    | none => exact ⟨rfl, fun t ht => nomatch ht⟩
    | some d =>
      dsimp only
      split
      · exact ⟨rfl, fun t ht => nomatch ht⟩
      · next t ht =>
        refine ⟨rfl, fun u hu => ?_⟩
        cases hu
        exact Almanac.gregorian_moment_offset ht

section Settle

variable (he : e.WithinDomains) (hs : s.Serves e settings)
include he hs

/-- The ways of a search, seen from the session that it leaves behind. -/
theorem settle_cases :
    (∃ k t, (∀ j < k, ¬ e.Accepts (s.odometer.advanced .day j).shown.date) ∧
      e.Accepts t.date.candidate ∧ t.date.year ≤ settings.maxYear ∧
      s.settle.session = { s with odometer := s.odometer.advanced .day k, current := some t } ∧
      s.settle.session.Holds t ∧ s.settle.result = .ok (some t) ∧
      (Search.run settings s.weekdays s.odometer).outcome = .ok (some t.date)) ∨
    (∃ k, s.settle.session = { s with odometer := s.odometer.advanced .day k, current := none } ∧
      s.settle.result = .ok none ∧
      (Search.run settings s.weekdays s.odometer).outcome = .ok none) ∨
    ∃ k cause, s.settle.session = { s with odometer := s.odometer.advanced .day k } ∧
      s.settle.result = .error cause ∧
      (Search.run settings s.weekdays s.odometer).outcome = .error cause := by
  obtain ⟨rfl, _, _⟩ := id hs
  rcases (hs.over he).run_cases with
    ⟨k, _, hfirst, hodometer, ⟨hyear, d, hd, hweekday, hout⟩ | ⟨_, hout⟩⟩ | ⟨_, hodometer, hout⟩
  · obtain ⟨t, rfl, hoffset, hfull, hshown⟩ :=
      (hs.odometer.advanced k).exists_moment he hd s.offset
    have hyear' : t.date.year ≤ s.settings.maxYear :=
      (congrArg Candidate.year hd).trans_le hyear
    have hmoment := (((hs.over he).advanced k).covers hyear).moment_of_shown hfull hshown
    refine Or.inl ⟨k, t, fun j hj => (hfirst j hj).2, ⟨t.date, rfl, hweekday⟩, hyear', ?_⟩
    rw [hoffset] at hmoment
    rw [settle, hout, hodometer]
    simp only
    rw [hmoment]
    exact ⟨rfl, ⟨rfl, hshown, hfull.1, hfull.2, hoffset⟩, rfl, trivial⟩
  · refine Or.inr (Or.inl ⟨k, ?_⟩)
    rw [settle, hout, hodometer]
    exact ⟨rfl, rfl, rfl⟩
  · refine Or.inr (Or.inr ⟨s.settings.maxInvalidDates, _, ?_, ?_, hout⟩) <;>
      rw [settle, hout, hodometer]

theorem settle_serves : s.settle.session.Serves e settings := by
  obtain ⟨hsettings, hodometer, hweekdays⟩ := id hs
  rcases settle_cases he hs with ⟨k, t, _, _, _, hsession, _⟩ | ⟨k, hsession, _⟩ |
    ⟨k, _, hsession, _⟩ <;> rw [hsession] <;> exact ⟨hsettings, hodometer.advanced k, hweekdays⟩

theorem settle_searchesFrom : s.settle.SearchesFrom e settings s.odometer.shown := by
  have hends := (hs.over he).run_ends
  rcases settle_cases he hs with ⟨k, t, _, _, _, hsession, _, hresult, hout⟩ |
    ⟨k, hsession, hresult, hout⟩ | ⟨k, cause, _, hresult, hout⟩ <;> rw [hout] at hends
  · refine ⟨hresult ▸ hends, fun c hc => ?_⟩
    rw [hresult] at hc
    rw [hsession, ← Except.ok.inj hc]
  · refine ⟨hresult ▸ hends, fun c hc => ?_⟩
    rw [hresult] at hc
    rw [hsession, ← Except.ok.inj hc]
  · refine ⟨hresult ▸ hends, fun c hc => ?_⟩
    rw [hresult] at hc
    contradiction

/-- If the odometer shows the least legal reading of a set, the search finds the least occurrence
there. -/
theorem settle_finds {R : Set Reading} (hR : IsUpperSet R)
    (hleast : IsLeast {r ∈ e.readings settings | r ∈ R} s.odometer.shown) :
    s.settle.Finds settings {r ∈ e.due settings | r ∈ R} := by
  have hset : {r ∈ e.due settings | r ∈ R} = {r ∈ e.due settings | s.odometer.shown ≤ r} := by
    ext r
    apply and_congr_right
    intro hr
    exact ⟨fun h => hleast.2 ⟨hr.1, h⟩, fun h => hR h hleast.1.2⟩
  rcases settle_cases he hs with ⟨k, t, hfirst, haccepts, hyear, hsession, hholds, hresult, _⟩ |
    ⟨k, hsession, hresult, hout⟩ | ⟨k, cause, _, hresult, _⟩ <;>
    rw [hset, Step.Finds, hresult]
  · have hshown : (s.odometer.advanced .day k).shown = t.reading := by
      rw [← hholds.shown, hsession]
    refine ⟨hholds, ?_, hyear⟩
    rw [← hshown]
    exact hs.odometer.advanced_isLeast_due (hshown ▸ haccepts) hfirst
  · refine ⟨by rw [hsession], fun r hr => ?_⟩
    have hends := (hs.over he).run_ends
    rw [hout] at hends
    obtain ⟨_, _, _, _, hnone⟩ := hends
    exact hnone _ hr.1.1.1 (Reading.date_le hr.2) hr.1.2
  · trivial

end Settle

theorem next_of_none (h : s.current = none) : s.next = ⟨s, .ok none, []⟩ := by
  rw [next, h]

theorem next_eq {t : Moment} (h : s.current = some t) :
    s.next = ({ s with odometer := s.odometer.advance .minute } : Session).settle.reportsEnd
      s.settings.maxYear := by
  rw [next, h]
  rfl

theorem next_of_some {t : Moment} (h : s.current = some t) :
    s.next.session = { s with odometer := s.odometer.advance .minute }.settle.session ∧
      s.next.result = { s with odometer := s.odometer.advance .minute }.settle.result := by
  rw [next_eq h]
  exact ⟨Step.session_reportsEnd _ _, Step.result_reportsEnd _ _⟩

theorem next_carries (s : Session) : s.next.Carries s.offset := by
  cases hcurrent : s.current with
  | none =>
    rw [next_of_none hcurrent]
    exact ⟨rfl, fun t ht => nomatch ht⟩
  | some t =>
    obtain ⟨hsession, hresult⟩ := next_of_some hcurrent
    exact (settle_carries { s with odometer := s.odometer.advance .minute }).of_eq hsession hresult

section Next

variable (he : e.WithinDomains) (hs : s.Serves e settings)
include he hs

theorem next_serves : s.next.session.Serves e settings := by
  cases hcurrent : s.current with
  | none => rwa [next_of_none hcurrent]
  | some t =>
    rw [(next_of_some hcurrent).1]
    exact settle_serves he (hs.advance .minute)

theorem next_searchesFrom {t : Moment} (hcurrent : s.current = some t) :
    s.next.SearchesFrom e settings (s.odometer.advance .minute).shown := by
  obtain ⟨hsession, hresult⟩ := next_of_some hcurrent
  refine Step.SearchesFrom.of_eq ?_ hsession hresult
  exact settle_searchesFrom he (hs.advance .minute)

theorem next_finds {t : Moment} (hholds : s.Holds t) :
    s.next.Finds settings {r ∈ e.due settings | t.reading < r} := by
  obtain ⟨hsession, hresult⟩ := next_of_some hholds.current
  have hleast := hs.odometer.advance_minute_isLeast
  rw [hholds.shown] at hleast
  refine Step.Finds.of_eq ?_ hsession hresult
  exact settle_finds he (hs.advance .minute) (isUpperSet_Ioi t.reading) hleast

end Next

end Session

namespace Step

/-- One step further on, with the reports of both. -/
def further (step : Step) : Step :=
  { step.session.next with log := step.log ++ step.session.next.log }

/-- The loop that steps on while the current occurrence is not wanted, without a bound on its
steps: it makes a number of them and ends on the last one. All its comparisons are answered. -/
inductive Skips (wanted : Moment → Except AlmanacError Bool) : Step → ℕ → Step → Prop
  | ends {step : Step} (h : ∀ t, step.result = .ok (some t) → wanted t = .ok true) :
    Skips wanted step 0 step
  | goesOn {step last : Step} {t : Moment} {n : ℕ} (ht : step.result = .ok (some t))
    (hunwanted : wanted t = .ok false) (h : Skips wanted step.further n last) :
    Skips wanted step (n + 1) last

section Skip

variable {wanted : Moment → Except AlmanacError Bool} {step last : Step} {n : ℕ}

theorem skip_succ_of_unwanted {t : Moment} (ht : step.result = .ok (some t))
    (hunwanted : wanted t = .ok false) (fuel : ℕ) :
    skip wanted .gregorian (fuel + 1) step = skip wanted .gregorian fuel step.further := by
  rw [skip, ht]
  simp only [hunwanted]
  rfl

/-- Room for the steps of the loop is room enough. -/
theorem Skips.skip_eq (h : step.Skips wanted n last) {fuel : ℕ} (hn : n ≤ fuel) :
    skip wanted .gregorian fuel step = last := by
  induction h generalizing fuel with
  | ends h =>
    cases fuel with
    | zero => rfl
    | succ fuel =>
      rw [skip]
      split
      · next t ht => rw [h t ht]
      · rfl
  | goesOn ht hunwanted _ ih =>
    cases fuel with
    | zero => omega
    | succ fuel =>
      rw [skip_succ_of_unwanted ht hunwanted]
      apply ih
      omega

theorem Skips.skipTo_eq (h : step.Skips wanted n last) (hn : n ≤ 1) (limit : Moment) :
    step.skipTo wanted limit = last := by
  unfold skipTo
  split
  · next t ht =>
    apply h.skip_eq
    unfold Moment.minutesUpTo
    omega
  · next hnone =>
    cases h with
    | ends => rfl
    | goesOn ht => exact absurd ht (hnone _)

theorem skipTo_of_wanted (limit : Moment)
    (h : ∀ t, step.result = .ok (some t) → wanted t = .ok true) : step.skipTo wanted limit = step :=
  (Skips.ends h).skipTo_eq zero_le_one limit

/-- One unwanted occurrence is stepped over if the next one is wanted. -/
theorem skipTo_of_unwanted (limit : Moment) {t : Moment} (ht : step.result = .ok (some t))
    (hunwanted : wanted t = .ok false)
    (hnext : ∀ u, step.session.next.result = .ok (some u) → wanted u = .ok true) :
    (step.skipTo wanted limit).session = step.session.next.session ∧
      (step.skipTo wanted limit).result = step.session.next.result := by
  have hskips : step.Skips wanted 1 step.further := .goesOn ht hunwanted (.ends hnext)
  rw [hskips.skipTo_eq le_rfl limit]
  exact ⟨rfl, rfl⟩

end Skip

theorem Carries.further {offset : Option ℤ} {step : Step} (h : step.Carries offset) :
    step.further.Carries offset :=
  h.session ▸ (step.session.next_carries).of_eq rfl rfl

section Induction

variable {wanted : Moment → Except AlmanacError Bool} {offset : Option ℤ}
  {P : Session → Except SearchError (Option Moment) → Prop}
  (hwanted : ∀ c : Moment, c.offset = offset → ∃ b, wanted c = .ok b)
  (hnext : ∀ s r, P s r → P s.next.session s.next.result)
include hwanted hnext

/-- What every step to the next occurrence keeps, skipping keeps, where all comparisons with moments
of the offset are answered. -/
theorem skip_induction (fuel : ℕ) {step : Step} (hcarries : step.Carries offset)
    (h : P step.session step.result) :
    (skip wanted .gregorian fuel step).Carries offset ∧
      P (skip wanted .gregorian fuel step).session (skip wanted .gregorian fuel step).result := by
  induction fuel generalizing step with
  | zero => exact ⟨hcarries, h⟩
  | succ fuel ih =>
    rw [skip]
    split
    · next t ht =>
      obtain ⟨b, hb⟩ := hwanted t (hcarries.result t ht)
      rw [hb]
      cases b with
      | true => exact ⟨hcarries, h⟩
      | false => exact ih hcarries.further (hnext _ _ h)
    · exact ⟨hcarries, h⟩

theorem skipTo_induction (limit : Moment) {step : Step} (hcarries : step.Carries offset)
    (h : P step.session step.result) :
    (step.skipTo wanted limit).Carries offset ∧
      P (step.skipTo wanted limit).session (step.skipTo wanted limit).result := by
  rw [skipTo]
  split
  · exact skip_induction hwanted hnext _ hcarries h
  · exact ⟨hcarries, h⟩

end Induction

end Step

namespace Step

variable {e : Entry} {settings : Settings} {wanted : Moment → Except AlmanacError Bool}
  {t : Moment} {p q : Prop} {step : Step} (he : e.WithinDomains)
  (hs : step.session.Serves e settings) (hcarries : step.Carries t.offset)
  (hfinds : step.Finds settings {r ∈ e.due settings | r ∈ t.onward p})
  (hwanted : Picks wanted t p q)
include he hs hcarries hfinds hwanted

/-- A step that finds the first occurrence onward from a reference, where only the reference
itself may be unwanted: the loop keeps it, or steps over it once. -/
theorem skips_cases :
    ((∀ c, step.result = .ok (some c) → c.reading ∈ t.onward q) ∧ step.Skips wanted 0 step) ∨
    ∃ c, step.result = .ok (some c) ∧ step.session.Holds c ∧ c.reading = t.reading ∧ p ∧ ¬ q ∧
      step.Skips wanted 1 step.further := by
  by_cases hkept : ∀ c, step.result = .ok (some c) → c.reading ∈ t.onward q
  · refine Or.inl ⟨hkept, .ends fun c hc => ?_⟩
    have honward := hkept c hc
    unfold Finds at hfinds
    rw [hc] at hfinds
    obtain ⟨hholds, ⟨⟨_, hmem⟩, _⟩, _⟩ := hfinds
    obtain ⟨b, hb, hiff⟩ :=
      hwanted c ⟨hholds.second, hholds.microsecond⟩ (hcarries.result c hc) hmem
    rw [hb, hiff.mpr honward]
  · push Not at hkept
    obtain ⟨c, hc, hnot⟩ := hkept
    unfold Finds at hfinds
    rw [hc] at hfinds
    obtain ⟨hholds, ⟨⟨_, hmem⟩, _⟩, _⟩ := hfinds
    obtain ⟨b, hb, hiff⟩ :=
      hwanted c ⟨hholds.second, hholds.microsecond⟩ (hcarries.result c hc) hmem
    obtain ⟨hp, hreading⟩ : p ∧ t.reading = c.reading :=
      hmem.resolve_left fun hlt => hnot (Or.inl hlt)
    have hq : ¬ q := fun hq => hnot (Or.inr ⟨hq, hreading⟩)
    have hunwanted : wanted c = .ok false := by
      rw [hb, Bool.eq_false_iff.mpr (mt hiff.mp hnot)]
    refine Or.inr
      ⟨c, hc, hholds, hreading.symm, hp, hq, .goesOn hc hunwanted (.ends fun u hu => ?_)⟩
    -- the next occurrence lies beyond the one that was not wanted, so it is wanted
    have hnext := Session.next_finds he hs hholds
    have hoffset := hcarries.further.result u hu
    have hu : step.session.next.result = .ok (some u) := hu
    unfold Finds at hnext
    rw [hu] at hnext
    obtain ⟨hu', ⟨⟨_, hlt⟩, _⟩, _⟩ := hnext
    rw [← hreading] at hlt
    obtain ⟨b, hb, hiff⟩ := hwanted u ⟨hu'.second, hu'.microsecond⟩ hoffset (Or.inl hlt)
    rw [hb, hiff.mpr (Or.inl hlt)]

theorem skipTo_cases (limit : Moment) :
    ((∀ c, step.result = .ok (some c) → c.reading ∈ t.onward q) ∧
      step.skipTo wanted limit = step) ∨
    ∃ c, step.result = .ok (some c) ∧ step.session.Holds c ∧ c.reading = t.reading ∧ ¬ q ∧
      (step.skipTo wanted limit).session = step.session.next.session ∧
      (step.skipTo wanted limit).result = step.session.next.result := by
  rcases skips_cases he hs hcarries hfinds hwanted with
    ⟨hall, hskips⟩ | ⟨c, hc, hholds, hreading, _, hq, hskips⟩
  · exact Or.inl ⟨hall, hskips.skipTo_eq zero_le_one limit⟩
  · rw [hskips.skipTo_eq le_rfl limit]
    exact Or.inr ⟨c, hc, hholds, hreading, hq, rfl, rfl⟩

theorem skipTo_finds (limit : Moment) (hqp : q → p) :
    (step.skipTo wanted limit).Finds settings {r ∈ e.due settings | r ∈ t.onward q} := by
  have hsub : t.onward q ⊆ t.onward p := fun r hr => hr.imp_right fun h => ⟨hqp h.1, h.2⟩
  rcases skipTo_cases he hs hcarries hfinds hwanted limit with
    ⟨hall, heq⟩ | ⟨c, hc, hholds, hreading, hq, hsession, hresult⟩
  · rw [heq]
    unfold Finds at hfinds ⊢
    split at hfinds
    · trivial
    · exact ⟨hfinds.1, fun r hr => hfinds.2 r ⟨hr.1, hsub hr.2⟩⟩
    · next c hresult =>
      obtain ⟨hholds, ⟨hmem, hleast⟩, hyear⟩ := hfinds
      refine ⟨hholds, ⟨⟨hmem.1, hall c hresult⟩, fun r hr => hleast ⟨hr.1, hsub hr.2⟩⟩, hyear⟩
  · have hset : {r ∈ e.due settings | r ∈ t.onward q} = {r ∈ e.due settings | c.reading < r} := by
      ext r
      apply and_congr_right
      intro _
      rw [hreading]
      exact or_iff_left fun h => hq h.1
    rw [hset]
    exact (Session.next_finds he hs hholds).of_eq hsession hresult

end Step

namespace Session

variable {e : Entry} {settings : Settings} {s : Session}

def aligned (s : Session) (t : Moment) : Session :=
  { s with odometer := s.odometer.seek s.settings.minYear t, offset := t.offset }

theorem Serves.aligned (hs : s.Serves e settings) (t : Moment) :
    (s.aligned t).Serves e settings :=
  ⟨hs.settings_eq, hs.settings_eq ▸ hs.odometer.seek t, hs.weekdays⟩

theorem Serves.aligned_isLeast (hs : s.Serves e settings) (t : Moment) :
    IsLeast {r ∈ e.readings settings | r ∈ t.onward True} (s.aligned t).odometer.shown := by
  have hleast := hs.odometer.seek_isLeast t
  rw [← hs.settings_eq] at hleast ⊢
  simp only [Moment.mem_onward_true]
  exact hleast

/-- A reset is a search from the least legal reading on, with at most one step after it. -/
theorem reset_eq_reportsReset (s : Session) (t : Moment) : s.reset t =
    ((s.aligned t).settle.skipTo (Almanac.gregorian.reaches t) t).reportsReset t := rfl

theorem reset_eq (s : Session) (t : Moment) :
    (s.reset t).session =
        ((s.aligned t).settle.skipTo (Almanac.gregorian.reaches t) t).session ∧
      (s.reset t).result =
        ((s.aligned t).settle.skipTo (Almanac.gregorian.reaches t) t).result := by
  rw [reset_eq_reportsReset]
  exact ⟨Step.session_reportsReset _ _, Step.result_reportsReset _ _⟩

/-- Every comparison that a reset makes is answered, since its occurrences have the offset of the
reference. -/
theorem reset_induction {P : Session → Except SearchError (Option Moment) → Prop}
    (hnext : ∀ s r, P s r → P s.next.session s.next.result) (s : Session) (t : Moment)
    (h : P (s.aligned t).settle.session (s.aligned t).settle.result) :
    (s.reset t).Carries t.offset ∧ P (s.reset t).session (s.reset t).result := by
  obtain ⟨hsession, hresult⟩ := reset_eq s t
  obtain ⟨hcarries, hkept⟩ := Step.skipTo_induction
    (fun c hc => ⟨_, Almanac.gregorian_compares.reaches_eq hc⟩) hnext t
    (settle_carries (s.aligned t)) h
  rw [hsession, hresult]
  exact ⟨hcarries.of_eq hsession hresult, hkept⟩

theorem first_induction {P : Session → Except SearchError (Option Moment) → Prop}
    (hnext : ∀ s r, P s r → P s.next.session s.next.result) (s : Session) (t : Moment)
    (inclusive : Bool) (h : P (s.aligned t).settle.session (s.aligned t).settle.result) :
    (s.first t inclusive).Carries t.offset ∧
      P (s.first t inclusive).session (s.first t inclusive).result := by
  obtain ⟨hcarries, hreset⟩ := reset_induction hnext s t h
  exact Step.skipTo_induction
    (fun c hc => ⟨_, Almanac.gregorian_compares.counts_eq inclusive hc⟩) hnext t hcarries hreset

theorem reset_carries (s : Session) (t : Moment) : (s.reset t).Carries t.offset :=
  (reset_induction (P := fun _ _ => True) (fun _ _ _ => trivial) s t trivial).1

theorem first_carries (s : Session) (t : Moment) (inclusive : Bool) :
    (s.first t inclusive).Carries t.offset :=
  (first_induction (P := fun _ _ => True) (fun _ _ _ => trivial) s t inclusive trivial).1

section Reset

variable (he : e.WithinDomains) (hs : s.Serves e settings)
include he hs

theorem aligned_settle_finds (t : Moment) :
    (s.aligned t).settle.Finds settings {r ∈ e.due settings | r ∈ t.onward True} :=
  settle_finds he (hs.aligned t) (t.isUpperSet_onward True) (hs.aligned_isLeast t)

theorem reset_serves (t : Moment) : (s.reset t).session.Serves e settings :=
  (reset_induction (P := fun s _ => s.Serves e settings) (fun _ _ h => next_serves he h) s t
    (settle_serves he (hs.aligned t))).2

theorem reset_finds (t : Moment) :
    (s.reset t).Finds settings {r ∈ e.due settings | r ∈ t.onward t.IsFull} := by
  obtain ⟨hsession, hresult⟩ := reset_eq s t
  refine Step.Finds.of_eq ?_ hsession hresult
  exact Step.skipTo_finds he (settle_serves he (hs.aligned t)) (settle_carries (s.aligned t))
    (aligned_settle_finds he hs t) (Almanac.gregorian_compares.reaches_picks t True) t
    fun _ => trivial

theorem first_serves (t : Moment) (inclusive : Bool) :
    (s.first t inclusive).session.Serves e settings :=
  (first_induction (P := fun s _ => s.Serves e settings) (fun _ _ h => next_serves he h) s t
    inclusive (settle_serves he (hs.aligned t))).2

theorem first_finds (t : Moment) (inclusive : Bool) : (s.first t inclusive).Finds settings
    {r ∈ e.due settings | r ∈ t.onward (inclusive = true ∧ t.IsFull)} :=
  Step.skipTo_finds he (reset_serves he hs t) (reset_carries s t) (reset_finds he hs t)
    (Almanac.gregorian_compares.counts_picks t inclusive) t fun h => h.2

end Reset

end Session

end Crontab
