import Crontab.Proofs.Failure

/-! The cursor after a call. The current occurrence is always due, and the wheels show it exactly
after the calls that return. A failed search leaves the wheels on a rejected date and the current
occurrence as it was. -/
namespace Crontab

inductive Call where
  | reset (t : Moment)
  | next
deriving DecidableEq, Repr

namespace Session

def call (s : Session) (c : Call) (almanac : Almanac := .gregorian) : Step :=
  match c with
  | .reset t => s.reset t almanac
  | .next => s.next almanac

/-- A test of a line and of the session that its entry starts with. -/
def testStart (line : String) (settings : Settings) (test : Session → Bool) : Bool :=
  match Entry.read line with
  | .ok e => match start e settings with
    | .ok s => test s
    | .error _ => false
  | .error _ => false

/-- From the session before a failed search to the one after it. -/
structure GivesUp (e : Entry) (settings : Settings) (s s' : Session) : Prop where
  current : s'.current = s.current
  offset : s'.offset = s.offset
  rejected : ¬ e.Accepts s'.odometer.shown.date
  le_maxYear : s'.odometer.shown.date.year ≤ settings.maxYear
  le : s.odometer.shown ≤ s'.odometer.shown
  passed : ∀ r ∈ e.due settings, s.odometer.shown ≤ r → s'.odometer.shown < r

/-- The current occurrence, if there is one, is due in the years of the settings. -/
def Upholds (e : Entry) (settings : Settings) (s : Session) : Prop :=
  ∀ t, s.current = some t →
    t.IsFull ∧ t.date.year ≤ settings.maxYear ∧ t.reading ∈ e.due settings

/-- What a call leaves behind agrees with its result: an occurrence that is current and shown, or
a date that is not accepted. -/
def AgreesWith (e : Entry) (s : Session) : Except SearchError (Option Moment) → Prop
  | .ok c => s.current = c ∧ ∀ t, c = some t → s.Holds t
  | .error _ => ¬ e.Accepts s.odometer.shown.date

variable {e : Entry} {settings : Settings} {s : Session}

theorem exists_of_testStart {line : String} {test : Session → Bool}
    (h : testStart line settings test = true) :
    ∃ e s, Entry.read line = .ok e ∧ start e settings = .ok s ∧ test s = true := by
  unfold testStart at h
  cases he : Entry.read line with
  | error cause =>
    rw [he] at h
    contradiction
  | ok e =>
    rw [he] at h
    cases hs : start e settings with
    | error cause =>
      simp only [hs] at h
      contradiction
    | ok s =>
      simp only [hs] at h
      exact ⟨e, s, rfl, hs, h⟩

theorem Reachable.call (h : Reachable e settings s) (c : Call) :
    Reachable e settings (s.call c).session := by
  cases c with
  | reset t => exact h.reset t
  | next => exact h.next

section Settle

variable (he : e.WithinDomains) (hs : s.Serves e settings)
include he hs

theorem settle_givesUp {cause : SearchError} (h : s.settle.result = .error cause) :
    s.GivesUp e settings s.settle.session := by
  have hsettings := hs.settings_eq
  have hvisits := s.odometer.candidates_visits
  have hout : (Search.run settings s.weekdays s.odometer).outcome = .error cause := by
    rcases settle_cases he hs with ⟨_, _, _, _, _, _, _, hresult, _⟩ | ⟨_, _, hresult, _⟩ |
      ⟨_, _, _, hresult, hout⟩ <;> rw [hresult] at h
    · contradiction
    · contradiction
    · rw [hout, Except.error.inj h]
  rcases (hs.over he).run_cases with
    ⟨_, _, _, _, ⟨_, _, _, _, hok⟩ | ⟨_, hok⟩⟩ | ⟨hall, hodometer, _⟩
  · rw [hout] at hok
    contradiction
  · rw [hout] at hok
    contradiction
  · have hsession : s.settle.session =
        { s with odometer := s.odometer.advanced .day settings.maxInvalidDates } := by
      rw [settle, hsettings, hout, hodometer]
    have hlast := hall settings.maxInvalidDates le_rfl
    rw [hsession]
    refine ⟨rfl, rfl, hlast.2, hlast.1, ?_, ?_⟩
    · rcases Nat.eq_zero_or_pos settings.maxInvalidDates with hzero | hpos
      · rw [hzero]
        exact le_rfl
      · exact (Reading.lt_of_date_lt (hvisits.strictMono hpos)).le
    · intro r hr hle
      by_contra hnot
      have hmem : r.date ∈ s.odometer.Candidates :=
        (hs.odometer.mem_candidates_iff (Reading.date_le hle)).mpr hr.1.1
      have hdate := Reading.date_le (not_lt.mp hnot)
      obtain ⟨j, hj, heq⟩ := hvisits.exists_eq hmem (Reading.date_le hle) hdate
      exact (hall j hj).2 (heq ▸ hr.2)

theorem settle_upholds (h : s.Upholds e settings) : s.settle.session.Upholds e settings := by
  have hserves := settle_serves he hs
  rcases settle_cases he hs with ⟨k, t, _, haccepts, hyear, _, hholds, _⟩ | ⟨k, hsession, _⟩ |
    ⟨k, _, hsession, _⟩
  · intro u hu
    obtain rfl : t = u := Option.some.inj (hholds.current.symm.trans hu)
    have hshown := hserves.odometer.shown_mem
    rw [hholds.shown] at hshown
    exact ⟨⟨hholds.second, hholds.microsecond⟩, hyear, hshown, haccepts⟩
  · rw [hsession]
    intro u hu
    contradiction
  · rw [hsession]
    exact h

theorem settle_agreesWith : s.settle.session.AgreesWith e s.settle.result := by
  cases hresult : s.settle.result with
  | error cause => exact (settle_givesUp he hs hresult).rejected
  | ok c =>
    have hcurrent := (settle_searchesFrom he hs).current c hresult
    refine ⟨hcurrent, fun t ht => ?_⟩
    rcases settle_cases he hs with ⟨_, u, _, _, _, _, hholds, hu, _⟩ | ⟨_, _, hu, _⟩ |
      ⟨_, _, _, hu, _⟩ <;> rw [hu] at hresult
    · have hut : u = t := Option.some.inj ((Except.ok.inj hresult).trans ht)
      exact hut ▸ hholds
    · rw [← Except.ok.inj hresult] at ht
      contradiction
    · contradiction

end Settle

section Calls

variable (he : e.WithinDomains)
include he

theorem next_upholds (hs : s.Serves e settings) (h : s.Upholds e settings) :
    s.next.session.Upholds e settings := by
  cases hcurrent : s.current with
  | none => rwa [next_of_none hcurrent]
  | some t =>
    rw [(next_of_some hcurrent).1]
    exact settle_upholds he (hs.advance .minute) h

theorem next_agreesWith (hs : s.Serves e settings) : s.next.session.AgreesWith e s.next.result := by
  cases hcurrent : s.current with
  | none =>
    rw [next_of_none hcurrent]
    exact ⟨hcurrent, fun t ht => nomatch ht⟩
  | some t =>
    obtain ⟨hsession, hresult⟩ := next_of_some hcurrent
    rw [hsession, hresult]
    exact settle_agreesWith he (hs.advance .minute)

theorem call_agrees (hs : s.Serves e settings) (h : s.Upholds e settings) (c : Call) :
    (s.call c).session.Upholds e settings ∧ (s.call c).session.AgreesWith e (s.call c).result := by
  cases c with
  | next => exact ⟨next_upholds he hs h, next_agreesWith he hs⟩
  | reset t =>
    have haligned := hs.aligned t
    have hreset := reset_induction
      (P := fun s r => s.Serves e settings ∧ s.Upholds e settings ∧ s.AgreesWith e r)
      (fun s' _ h' => ⟨next_serves he h'.1, next_upholds he h'.1 h'.2.1, next_agreesWith he h'.1⟩)
      s t
      ⟨settle_serves he haligned, settle_upholds he haligned h, settle_agreesWith he haligned⟩
    exact hreset.2.2

theorem call_error_eq (hs : s.Serves e settings) (c : Call) {cause : SearchError}
    (h : (s.call c).result = .error cause) :
    ∃ attempts year month day, cause = .unsatisfiable attempts year month day := by
  cases c with
  | reset t =>
    obtain ⟨r, _, hsearch⟩ := reset_search he hs t
    exact hsearch.error_eq h
  | next =>
    cases hcurrent : s.current with
    | some t => exact (next_searchesFrom he hs hcurrent).error_eq h
    | none =>
      rw [call, next_of_none hcurrent] at h
      contradiction

theorem Reachable.upholds (h : Reachable e settings s) : s.Upholds e settings := by
  induction h with
  | start hstart =>
    obtain ⟨s', hs', _, hnone⟩ := start_eq_ok he settings
    rw [hs'] at hstart
    obtain rfl := Except.ok.inj hstart
    intro t ht
    rw [hnone] at ht
    contradiction
  | reset t hs ih => exact (call_agrees he (hs.serves he) ih (.reset t)).1
  | next hs ih => exact (call_agrees he (hs.serves he) ih .next).1

end Calls

/-- The wheels, from the year down to the minute, against the components of a moment. -/
theorem reading_eq_iff {o : Odometer} {t : Moment} :
    o.reading = t.components.take 5 ↔ o.shown = t.reading := by
  have ho : o.shown.downTo .minute = o.reading := o.downTo_minute_shown
  have ht : t.reading.downTo .minute = t.components.take 5 := rfl
  rw [← ho, ← ht]
  exact Reading.downTo_minute_injective.eq_iff

/-- In every state the current occurrence is one of the entry, in the years of the settings. The
wheels show it after a call exactly if the call has returned. -/
theorem reachable_current {line : String} {e : Entry} (h : Entry.read line = .ok e)
    {settings : Settings} {s : Session} (hs : Reachable e settings s) :
    (∀ t, s.current = some t → t.second = 0 ∧ t.microsecond = 0 ∧
      settings.minYear ≤ t.date.year ∧ t.date.year ≤ settings.maxYear ∧
      e.matchesAt t = .ok true) ∧
    ∀ c t, (s.call c).session.current = some t →
      ((s.call c).session.odometer.reading = t.components.take 5 ↔
        ∃ r, (s.call c).result = .ok r) := by
  have he := Entry.read_withinDomains h
  constructor
  · intro t ht
    obtain ⟨hfull, hmax, hdue⟩ := hs.upholds he t ht
    obtain ⟨hmin, hselects⟩ := (Entry.reading_mem_due_iff hfull).mp hdue
    exact ⟨hfull.1, hfull.2, hmin, hmax, (he.matchesAt_iff t).mpr hselects⟩
  · intro c t ht
    obtain ⟨hupholds, hagrees⟩ := call_agrees he (hs.serves he) (hs.upholds he) c
    obtain ⟨_, _, hdue⟩ := hupholds t ht
    rw [reading_eq_iff]
    cases hresult : (s.call c).result with
    | ok r =>
      rw [hresult] at hagrees
      have hholds := hagrees.2 t (hagrees.1.symm.trans ht)
      exact ⟨fun _ => ⟨r, rfl⟩, fun _ => hholds.shown⟩
    | error cause =>
      rw [hresult] at hagrees
      constructor
      · intro hshown
        have hrejected : ¬ e.Accepts t.reading.date := hshown ▸ hagrees
        exact absurd hdue.2 hrejected
      · intro hok
        obtain ⟨_, hok⟩ := hok
        contradiction

/-- A failed step from the 31st of January: it stays current, and the wheels show the 31st of
February. -/
theorem reachable_current_after_failure : ∃ (e : Entry) (settings : Settings) (s : Session)
    (t : Moment), Entry.read "0 0 30,31 1,2 *" = .ok e ∧ settings.maxInvalidDates = 1 ∧
    Reachable e settings s ∧ (s.call .next).session.current = some t ∧
    t.components.take 5 = [2021, 1, 31, 0, 0] ∧
    (s.call .next).session.odometer.reading = [2021, 2, 31, 0, 0] ∧
    (¬ ∃ r, (s.call .next).result = .ok r) ∧ e.matchesAt t = .ok true := by
  let settings : Settings := { maxInvalidDates := 1 }
  let t : Moment :=
    { date := ⟨2021, 1, 31, by decide, by decide⟩, hour := 0, minute := 0,
      hour_lt := by decide, minute_lt := by decide }
  have hrun : testStart "0 0 30,31 1,2 *" settings (fun s =>
      let step := (s.reset t).session.next
      decide (step.session.current = some t) &&
        decide (step.session.odometer.reading = [2021, 2, 31, 0, 0])) = true := by
    decide +kernel
  obtain ⟨e, s, he, hs, htest⟩ := exists_of_testStart hrun
  simp only [Bool.and_eq_true, decide_eq_true_eq] at htest
  obtain ⟨hcurrent, hreading⟩ := htest
  have hreachable := (Reachable.start hs).reset t
  have hcoherent := (reachable_current he hreachable).2 .next t hcurrent
  have hdue := (reachable_current he hreachable.next).1 t hcurrent
  refine ⟨e, settings, _, t, he, rfl, hreachable, hcurrent, rfl, hreading, fun hok => ?_,
    hdue.2.2.2.2⟩
  have hsame : [2021, 2, 31, 0, 0] = t.components.take 5 := hreading.symm.trans (hcoherent.mpr hok)
  exact absurd hsame (by decide)

end Session

end Crontab
