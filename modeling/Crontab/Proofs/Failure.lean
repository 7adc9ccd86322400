import Crontab.Proofs.Budget
import Crontab.Proofs.Schedule

/-! When the calls for an entry fail. The next occurrence is declared missing exactly if the search
for it passes over too many dates, and with a large enough budget no call fails. -/
namespace Crontab

namespace Step.SearchesFrom

variable {e : Entry} {settings : Settings} {step : Step} {r : Reading}

theorem error_eq (h : step.SearchesFrom e settings r) {cause : SearchError}
    (hcause : step.result = .error cause) :
    ∃ attempts year month day, cause = .unsatisfiable attempts year month day := by
  obtain ⟨xs, _, _, hends⟩ := h.outcome
  rw [hcause] at hends
  obtain ⟨_, last, _, heq⟩ := hends
  exact ⟨_, _, _, _, heq⟩

theorem fails_iff (h : step.SearchesFrom e settings r) (he : e.WithinDomains) {R : Set Reading}
    (hR : IsUpperSet R) (hr : IsLeast {r ∈ e.readings settings | r ∈ R} r) :
    (∃ cause, step.result = .error cause) ↔
      settings.maxInvalidDates < (e.passed settings R).ncard := by
  rw [← h.outcome.gives_up_iff hR hr he]
  cases step.result with
  | error cause => exact ⟨fun _ => ⟨cause, rfl⟩, fun _ => ⟨cause, rfl⟩⟩
  | ok c => exact ⟨fun ⟨_, hc⟩ => (nomatch hc), fun ⟨_, hc⟩ => (nomatch hc)⟩

theorem exists_ok (h : step.SearchesFrom e settings r) (he : e.WithinDomains)
    (hpossible : e.HasPossibleDate) (hbudget : 40 * e.pairs - 1 ≤ settings.maxInvalidDates)
    {R : Set Reading} (hR : IsUpperSet R) (hr : IsLeast {r ∈ e.readings settings | r ∈ R} r) :
    ∃ c, step.result = .ok c := by
  have hpassed := Entry.ncard_passed_lt he hpossible hR hr
  cases hresult : step.result with
  | ok c => exact ⟨c, rfl⟩
  | error cause =>
    have := (h.fails_iff he hR hr).mp ⟨cause, hresult⟩
    omega

end Step.SearchesFrom

namespace Entry

variable {e : Entry} {settings : Settings} {start : Moment} {inclusive : Bool}

/-- The readings in which the next occurrence is searched: those from the start on, without the
minute of the start if that is an occurrence which is not wanted. -/
def searched (e : Entry) (settings : Settings) (start : Moment) (inclusive : Bool) : Set Reading :=
  start.onward (¬ start.Misses e settings (inclusive = true ∧ start.IsFull))

/-- The call for the next occurrence fails because the entry seems to have none. -/
def DeclaredUnsatisfiable (e : Entry) (settings : Settings) (start : Moment) (inclusive : Bool) :
    Prop :=
  ∃ attempts year month day, e.nextFrom start inclusive settings =
    .error (.search (.unsatisfiable attempts year month day))

theorem declaredUnsatisfiable_iff (he : e.WithinDomains) (settings : Settings) (start : Moment)
    (inclusive : Bool) : e.DeclaredUnsatisfiable settings start inclusive ↔
    settings.maxInvalidDates < (e.passed settings (e.searched settings start inclusive)).ncard := by
  obtain ⟨s, hstart, hs, _⟩ := Session.start_eq_ok he settings
  obtain ⟨r, hr, hsearch⟩ := Session.first_search he hs start inclusive
  have hfails := hsearch.fails_iff he (start.isUpperSet_onward _) hr
  rw [searched, ← hfails, DeclaredUnsatisfiable, nextFrom_eq hstart]
  constructor
  · intro h
    obtain ⟨attempts, year, month, day, h⟩ := h
    cases hresult : (s.first start inclusive).result with
    | error cause => exact ⟨cause, rfl⟩
    | ok t =>
      rw [hresult] at h
      contradiction
  · intro h
    obtain ⟨cause, hcause⟩ := h
    obtain ⟨attempts, year, month, day, rfl⟩ := hsearch.error_eq hcause
    rw [hcause]
    exact ⟨attempts, year, month, day, rfl⟩

theorem hasPossibleDate_of_selects {t : Moment} (h : e.Selects t) : e.HasPossibleDate := by
  obtain ⟨_, _, _, _, hday, hmonth, _⟩ := h
  have hleap : Calendar.isLeap 2000 = true := by decide
  exact ⟨_, _, hmonth, hday, 2000, hleap, t.date.day_mem.2.trans
    (Calendar.daysIn_le_of_isLeap hleap _)⟩

/-- The entry is declared unsatisfiable only when it has no occurrence left. -/
def RefusedRightly (e : Entry) (settings : Settings) (start : Moment) (inclusive : Bool) : Prop :=
  e.DeclaredUnsatisfiable settings start inclusive → ∀ t, ¬ e.IsDue settings start inclusive t

/-- With the default budget an entry is refused rightly exactly if no more than a hundred dates
lie before its first occurrence. Two pairs of a day and a month never have more. -/
theorem refusedRightly_default_iff {line : String} {e : Entry} (h : read line = .ok e)
    (start : Moment) (inclusive : Bool) :
    (e.RefusedRightly .default start inclusive ↔
      ((∃ t, e.IsDue .default start inclusive t) →
        (e.passed .default (e.searched .default start inclusive)).ncard ≤ 100)) ∧
    (e.pairs ≤ 2 → e.RefusedRightly .default start inclusive) := by
  have he := read_withinDomains h
  have hdeclared := declaredUnsatisfiable_iff he .default start inclusive
  refine ⟨?_, fun hpairs hrefused t ht => ?_⟩
  · have hwithin := (not_congr hdeclared).trans not_lt
    exact ⟨fun hrightly ⟨t, ht⟩ => hwithin.mp fun hrefused => hrightly hrefused t ht,
      fun hfew hrefused t ht => hwithin.mpr (hfew ⟨t, ht⟩) hrefused⟩
  · have hpossible := hasPossibleDate_of_selects ((he.matchesAt_iff t).mp ht.selected)
    obtain ⟨s, _, hs, _⟩ := Session.start_eq_ok he .default
    obtain ⟨r, hr, _⟩ := Session.first_search he hs start inclusive
    have hpassed := ncard_passed_lt he hpossible (start.isUpperSet_onward _) hr
    have hspent : 100 < (e.passed .default (e.searched .default start inclusive)).ncard :=
      hdeclared.mp hrefused
    rw [searched] at hspent
    omega

/-- The default budget is too small for three days: from 1889 on, with no leap day in 1900, the
entry is refused in 1922, six years before the 29th of February falls on a Wednesday. -/
theorem refused_before_leap_wednesday : ∃ (e : Entry) (start : Moment),
    read "0 0 29-31 2 3" = .ok e ∧ e.DeclaredUnsatisfiable .default start true ∧
      (∃ t, e.IsDue .default start true t) ∧
      100 < (e.passed .default (e.searched .default start true)).ncard := by
  let start : Moment :=
    { date := ⟨1889, 1, 1, by decide, by decide⟩, hour := 0, minute := 0,
      hour_lt := by decide, minute_lt := by decide }
  let t : Moment :=
    { date := ⟨1928, 2, 29, by decide, by decide⟩, hour := 0, minute := 0,
      hour_lt := by decide, minute_lt := by decide }
  have hrun : (match read "0 0 29-31 2 3" with
      | .ok e => (match e.nextFrom start true .default with
        | .error (.search (.unsatisfiable 101 1922 2 30)) => true
        | _ => false) && (match e.matchesAt t with
        | .ok matched => matched
        | .error _ => false)
      | .error _ => false) = true := by decide +kernel
  obtain ⟨e, he⟩ : ∃ e, read "0 0 29-31 2 3" = .ok e := ⟨_, rfl⟩
  rw [he] at hrun
  obtain ⟨hnext, hmatches⟩ := Bool.and_eq_true_iff.mp hrun
  have hrefused : e.DeclaredUnsatisfiable .default start true := by
    split at hnext
    · next h => exact ⟨_, _, _, _, h⟩
    · contradiction
  have hdue : e.IsDue .default start true t := by
    refine ⟨rfl, ⟨rfl, rfl⟩, by decide, by decide, ?_, ?_⟩
    · split at hmatches
      · next h => exact hmatches ▸ h
      · contradiction
    · change ¬ t < start
      decide
  refine ⟨e, start, he, hrefused, ⟨t, hdue⟩, not_le.mp fun hle => ?_⟩
  exact (refusedRightly_default_iff he start true).1.mpr (fun _ => hle) hrefused t hdue

/-- No call for the entry fails, in whatever state and from whatever start. -/
structure NeverFails (e : Entry) (settings : Settings) : Prop where
  reset : ∀ s, Session.Reachable e settings s → ∀ t, ∃ c, (s.reset t).result = .ok c
  next : ∀ s, Session.Reachable e settings s → ∃ c, s.next.result = .ok c
  nextFrom : ∀ start inclusive, ∃ c, e.nextFrom start inclusive settings = .ok c
  run : ∀ start inclusive n cause,
    ((e.occurrences start inclusive settings).run n).2 ≠ .failed cause

section Budget

variable (he : e.WithinDomains) (hpossible : e.HasPossibleDate)
  (hbudget : 40 * e.pairs - 1 ≤ settings.maxInvalidDates) {s : Session}
  (hs : s.Serves e settings)
include he hpossible hbudget hs

theorem next_ok : ∃ c, s.next.result = .ok c := by
  cases hcurrent : s.current with
  | none => exact ⟨none, by rw [Session.next_of_none hcurrent]⟩
  | some t =>
    obtain ⟨r, hr, hsearch⟩ := Session.next_search he hs hcurrent
    exact hsearch.exists_ok he hpossible hbudget (isUpperSet_Ioi _) hr

theorem reset_ok (t : Moment) : ∃ c, (s.reset t).result = .ok c := by
  obtain ⟨r, hr, hsearch⟩ := Session.reset_search he hs t
  exact hsearch.exists_ok he hpossible hbudget (t.isUpperSet_onward _) hr

theorem first_ok (t : Moment) (inclusive : Bool) : ∃ c, (s.first t inclusive).result = .ok c := by
  obtain ⟨r, hr, hsearch⟩ := Session.first_search he hs t inclusive
  exact hsearch.exists_ok he hpossible hbudget (t.isUpperSet_onward _) hr

end Budget

/-- A stream whose first step does not fail does not fail later, if no step of a session does. -/
theorem run_ne_failed (he : e.WithinDomains)
    (hnext : ∀ s : Session, s.Serves e settings → ∃ c, s.next.result = .ok c) {step : Step}
    (hs : step.session.Serves e settings) (hcarries : step.Carries start.offset)
    (hok : ∃ c, step.result = .ok c) (n : ℕ) {stream : Occurrences}
    (hpull : stream.pull = Occurrences.after step start inclusive)
    (cause : OccurrenceError) : (stream.run n).2 ≠ .failed cause := by
  induction n generalizing step stream with
  | zero =>
    intro h
    contradiction
  | succ n ih =>
    obtain ⟨c, hc⟩ := hok
    rw [Occurrences.run, hpull]
    cases c with
    | none =>
      rw [Occurrences.after, hc]
      intro h
      contradiction
    | some t =>
      rw [Occurrences.after_of_ok hc]
      -- the next pull is a step of the session, with steps over what is not wanted after it
      have hnextCarries : step.session.next.Carries start.offset :=
        hcarries.session ▸ step.session.next_carries
      obtain ⟨hcarries, hserves, hok⟩ := Step.skipTo_induction
        (P := fun s r => s.Serves e settings ∧ ∃ c, r = .ok c)
        (fun c hc => ⟨_, Almanac.gregorian_compares.counts_eq inclusive hc⟩)
        (fun s' _ h => ⟨Session.next_serves he h.1, hnext s' h.1⟩) start hnextCarries
        ⟨Session.next_serves he hs, hnext _ hs⟩
      exact ih hserves hcarries hok rfl

theorem neverFails (he : e.WithinDomains) (hpossible : e.HasPossibleDate)
    (hbudget : 40 * e.pairs - 1 ≤ settings.maxInvalidDates) : e.NeverFails settings := by
  obtain ⟨s, hstart, hs, _⟩ := Session.start_eq_ok he settings
  refine ⟨fun s hs t => reset_ok he hpossible hbudget (hs.serves he) t,
    fun s hs => next_ok he hpossible hbudget (hs.serves he), fun start inclusive => ?_,
    fun start inclusive n cause => ?_⟩
  · obtain ⟨c, hc⟩ := first_ok he hpossible hbudget hs start inclusive
    exact ⟨c, by rw [nextFrom_eq hstart, hc]; rfl⟩
  · have hfirst := first_ok he hpossible hbudget hs start inclusive
    exact run_ne_failed he (fun s hs => next_ok he hpossible hbudget hs)
      (Session.first_serves he hs start inclusive) (Session.first_carries s start inclusive) hfirst
      n (Occurrences.pull_occurrences hstart) cause

/-- Forty rejected dates for each pair of a legal day and a legal month, less one, are a sufficient
budget. The strict settings have enough of it for one pair. -/
theorem neverFails_of_budget {line : String} {e : Entry} (h : read line = .ok e)
    (hpossible : e.HasPossibleDate) :
    (∀ settings : Settings, 40 * e.pairs - 1 ≤ settings.maxInvalidDates → e.NeverFails settings) ∧
      (e.pairs = 1 → e.NeverFails .strict) := by
  have he := read_withinDomains h
  refine ⟨fun settings => neverFails he hpossible, fun hpairs => ?_⟩
  refine neverFails he hpossible ?_
  rw [hpairs]
  decide

/-- Wednesdays on the 29th of February: one pair, whose possible date is the day itself. -/
theorem neverFails_of_budget_leap_day : ∃ e, read "0 0 29 2 3" = .ok e ∧ e.HasPossibleDate ∧
    e.pairs = 1 ∧ e.NeverFails .strict ∧ e.NeverFails { maxInvalidDates := 39 } := by
  let only (kind : FieldKind) (v : ℕ) : Field := ⟨.single kind.domain v, []⟩
  let e : Entry := ⟨only .minute 0, only .hour 0, only .dayOfMonth 29, only .month 2,
    only .dayOfWeek 3, "", "0 0 29 2 3"⟩
  have hread : read "0 0 29 2 3" = .ok e := rfl
  have hpossible : e.HasPossibleDate :=
    ⟨2, 29, ⟨_, List.mem_cons_self, by decide⟩, ⟨_, List.mem_cons_self, by decide⟩, 2000,
      by decide, by decide⟩
  have hpairs : e.pairs = 1 := by
    simp only [pairs, e, only, Field.legal_single, Set.ncard_singleton]
  have hnever := neverFails_of_budget hread hpossible
  exact ⟨e, hread, hpossible, hpairs, hnever.2 hpairs, hnever.1 _ (by rw [hpairs])⟩

end Entry

end Crontab
