import Crontab.Proofs.Polling

/-! Schedules repeat with the calendar. A cycle of 400 years has whole weeks and the same leap
years, so a question from a start some cycles later meets the same dates that many cycles later,
and its answer moves with it as long as it stays within the last year. -/
namespace Crontab

namespace Candidate

/-- The date of the same name some cycles of the calendar later. -/
def addCycles (q : ℤ) (c : Candidate) : Candidate :=
  { c with year := c.year + 400 * q }

variable (q : ℤ)

theorem addCycles_strictMono : StrictMono (addCycles q) := by
  intro c d hlt
  rw [lt_iff] at hlt ⊢
  simp only [addCycles]
  omega

theorem addCycles_neg_addCycles (c : Candidate) : (c.addCycles (-q)).addCycles q = c := by
  unfold addCycles
  ext
  · simp only
    omega
  · rfl
  · rfl

theorem addCycles_surjective : Function.Surjective (addCycles q) :=
  fun c => ⟨c.addCycles (-q), addCycles_neg_addCycles q c⟩

end Candidate

namespace Reading

@[inherit_doc Candidate.addCycles]
def addCycles (q : ℤ) (r : Reading) : Reading :=
  { r with date := r.date.addCycles q }

variable (q : ℤ)

theorem addCycles_strictMono : StrictMono (addCycles q) := by
  intro r s hlt
  rw [lt_iff_digits] at hlt ⊢
  simp only [addCycles, Candidate.addCycles]
  omega

theorem addCycles_surjective : Function.Surjective (addCycles q) := by
  intro r
  refine ⟨r.addCycles (-q), ?_⟩
  unfold addCycles
  rw [Candidate.addCycles_neg_addCycles]

end Reading

namespace Date

@[inherit_doc Candidate.addCycles]
def addCycles (q : ℤ) (d : Date) : Date where
  year := d.year + 400 * q
  month := d.month
  day := d.day
  month_mem := d.month_mem
  day_mem := by
    rw [Calendar.daysIn_of_isLeap_eq (Calendar.isLeap_add_cycles d.year q)]
    exact d.day_mem

theorem candidate_addCycles (q : ℤ) (d : Date) :
    (d.addCycles q).candidate = d.candidate.addCycles q := rfl

theorem weekday_addCycles (q : ℤ) (d : Date) : (d.addCycles q).weekday = d.weekday := by
  have hbefore := Calendar.daysBefore_of_isLeap_eq (Calendar.isLeap_add_cycles d.year q) d.month
  have hpast := Calendar.daysPast_add_cycles d.year q
  simp only [weekday, ordinal, Calendar.ordinal_eq, addCycles, hbefore, hpast]
  omega

end Date

namespace Moment

@[inherit_doc Candidate.addCycles]
def addCycles (q : ℤ) (t : Moment) : Moment :=
  { t with date := t.date.addCycles q }

theorem reading_addCycles (q : ℤ) (t : Moment) :
    (t.addCycles q).reading = t.reading.addCycles q := rfl

theorem mem_onward_addCycles {q : ℤ} {t : Moment} {p p' : Prop} (hp : p' ↔ p) (r : Reading) :
    r.addCycles q ∈ (t.addCycles q).onward p' ↔ r ∈ t.onward p := by
  have hmono := Reading.addCycles_strictMono q
  rw [onward, onward, Set.mem_ofPred_eq, Set.mem_ofPred_eq, reading_addCycles, hmono.lt_iff_lt,
    hmono.injective.eq_iff, hp]

end Moment

/-- The image of a set is known by its members if everything has an original. -/
theorem image_eq_of_mem_iff {α β : Type*} {f : α → β} (hf : Function.Surjective f) {S : Set α}
    {T : Set β} (h : ∀ x, f x ∈ T ↔ x ∈ S) : f '' S = T := by
  have hpreimage : S = Set.preimage f T := Set.ext fun x => (h x).symm
  rw [hpreimage]
  exact hf.image_preimage T

namespace Entry

variable {e : Entry} {settings : Settings} {q : ℕ} {start : Moment} {inclusive : Bool}

theorem accepts_addCycles (c : Candidate) : e.Accepts (c.addCycles q) ↔ e.Accepts c := by
  constructor
  · intro h
    obtain ⟨d, hd, hweekday⟩ := h
    refine ⟨d.addCycles (-q), ?_, ?_⟩
    · apply (Candidate.addCycles_strictMono q).injective
      rw [Date.candidate_addCycles, Candidate.addCycles_neg_addCycles, hd]
    · rwa [Date.weekday_addCycles]
  · intro h
    obtain ⟨d, rfl, hweekday⟩ := h
    refine ⟨d.addCycles q, rfl, ?_⟩
    rwa [Date.weekday_addCycles]

theorem mem_candidates_addCycles {c : Candidate} (hc : settings.minYear ≤ c.year) :
    c.addCycles q ∈ e.candidates settings ↔ c ∈ e.candidates settings := by
  have hlater : settings.minYear ≤ (c.addCycles q).year := by
    simp only [Candidate.addCycles]
    omega
  simp only [candidates, Set.mem_ofPred_eq, hc, hlater, true_and]
  rfl

theorem mem_readings_addCycles {r : Reading} (hr : settings.minYear ≤ r.date.year) :
    r.addCycles q ∈ e.readings settings ↔ r ∈ e.readings settings :=
  and_congr_left fun _ => mem_candidates_addCycles hr

theorem mem_due_addCycles {r : Reading} (hr : settings.minYear ≤ r.date.year) :
    r.addCycles q ∈ e.due settings ↔ r ∈ e.due settings :=
  and_congr (mem_readings_addCycles hr) (accepts_addCycles r.date)

theorem image_candidates {p p' : Candidate → Prop} (hmin : ∀ x, p x → settings.minYear ≤ x.year)
    (hp : ∀ x : Candidate, p' (x.addCycles q) ↔ p x) :
    Candidate.addCycles q '' {x ∈ e.candidates settings | p x} =
      {x ∈ e.candidates settings | p' x} := by
  apply image_eq_of_mem_iff (Candidate.addCycles_surjective q)
  intro x
  rw [Set.mem_ofPred_eq, Set.mem_ofPred_eq, hp]
  exact and_congr_left fun hx => mem_candidates_addCycles (hmin x hx)

/-- From a start in the years of the settings on, the least reading of a set moves with the start
if the set repeats with the calendar. -/
theorem isLeast_addCycles {A : Set Reading} {p p' : Prop} {r : Reading}
    (hA : ∀ x : Reading, settings.minYear ≤ x.date.year → (x.addCycles q ∈ A ↔ x ∈ A))
    (hmin : settings.minYear ≤ start.date.year) (hp : p' ↔ p)
    (h : IsLeast {x ∈ A | x ∈ start.onward p} r) :
    IsLeast {x ∈ A | x ∈ (start.addCycles q).onward p'} (r.addCycles q) := by
  have himage : Reading.addCycles q '' {x ∈ A | x ∈ start.onward p} =
      {x ∈ A | x ∈ (start.addCycles q).onward p'} := by
    apply image_eq_of_mem_iff (Reading.addCycles_surjective q)
    intro x
    rw [Set.mem_ofPred_eq, Set.mem_ofPred_eq, Moment.mem_onward_addCycles hp]
    refine and_congr_left fun honward => hA x ?_
    have hle : start.reading ≤ x := Moment.reading_le_of_mem_onward honward
    exact hmin.trans (Candidate.year_le (Reading.date_le hle))
  rw [← himage]
  exact (Reading.addCycles_strictMono q).monotone.map_isLeast h

theorem misses_addCycles (hmin : settings.minYear ≤ start.date.year)
    (hmax : start.date.year + 400 * q ≤ settings.maxYear) {wanted : Prop} :
    (start.addCycles q).Misses e settings wanted ↔ start.Misses e settings wanted := by
  have hyear : start.date.year ≤ settings.maxYear := by omega
  have hlater : (start.addCycles q).date.year ≤ settings.maxYear := hmax
  have hdue : (start.addCycles q).reading ∈ e.due settings ↔ start.reading ∈ e.due settings :=
    mem_due_addCycles (r := start.reading) hmin
  simp only [Moment.Misses, hdue, hyear, hlater, true_and]

namespace SearchEnds

variable {c : Candidate} {outcome outcome' : Except SearchError (Option Date)}

theorem unique (h : e.SearchEnds settings c outcome) (h' : e.SearchEnds settings c outcome') :
    outcome = outcome' := by
  obtain ⟨xs, hlength, hfirst, hends⟩ := h
  obtain ⟨ys, hlength', hfirst', hends'⟩ := h'
  obtain rfl := hfirst.unique (hlength.trans hlength'.symm) hfirst'
  cases outcome with
  | error cause =>
    cases outcome' with
    | error cause' =>
      obtain ⟨_, last, hlast, rfl⟩ := hends
      obtain ⟨_, last', hlast', rfl⟩ := hends'
      obtain rfl : last = last' := Option.some.inj (hlast.symm.trans hlast')
      rfl
    | ok d? => cases d? <;> exact absurd hends.1 hends'.1
  | ok d? =>
    cases outcome' with
    | error cause' => cases d? <;> exact absurd hends'.1 hends.1
    | ok d?' =>
      cases d? with
      | none =>
        cases d?' with
        | none => rfl
        | some d' =>
          obtain ⟨_, hleast, hyear⟩ := hends'
          exact absurd hyear (not_le.mpr (hends.2 _ hleast.1.1 hleast.1.2.1 hleast.1.2.2))
      | some d =>
        obtain ⟨_, hleast, hyear⟩ := hends
        cases d?' with
        | none => exact absurd hyear (not_le.mpr (hends'.2 _ hleast.1.1 hleast.1.2.1 hleast.1.2.2))
        | some d' => rw [Date.candidate_injective (hleast.unique hends'.2.1)]

theorem year_le_of_found {d : Date} (h : e.SearchEnds settings c (.ok (some d))) :
    c.year ≤ d.year := by
  obtain ⟨_, _, _, _, hleast, _⟩ := h
  exact Candidate.year_le hleast.1.2.1

theorem year_le_of_error {attempts month day : ℕ} {year : ℤ}
    (h : e.SearchEnds settings c (.error (.unsatisfiable attempts year month day))) :
    c.year ≤ year := by
  obtain ⟨xs, _, hfirst, _, last, hlast, heq⟩ := h
  cases heq
  exact Candidate.year_le (hfirst.mem last (List.mem_of_getLast? hlast)).2

section Later

variable (hc : settings.minYear ≤ c.year)
include hc

theorem listsFirst_addCycles {xs : List Candidate}
    (h : ListsFirst {x ∈ e.candidates settings | c ≤ x} xs) :
    ListsFirst {x ∈ e.candidates settings | c.addCycles q ≤ x}
      (xs.map (Candidate.addCycles q)) := by
  have hmono := Candidate.addCycles_strictMono q
  rw [← image_candidates (p := (c ≤ ·)) (fun x hle => hc.trans (Candidate.year_le hle))
    fun x => hmono.le_iff_le]
  exact h.map hmono

theorem isLeast_accepts_addCycles {d : Date}
    (h : IsLeast {x ∈ e.candidates settings | c ≤ x ∧ e.Accepts x} d.candidate) :
    IsLeast {x ∈ e.candidates settings | c.addCycles q ≤ x ∧ e.Accepts x}
      (d.addCycles q).candidate := by
  have hmono := Candidate.addCycles_strictMono q
  rw [← image_candidates (p := fun x => c ≤ x ∧ e.Accepts x)
    (fun x hx => hc.trans (Candidate.year_le hx.1))
    fun x => and_congr hmono.le_iff_le (accepts_addCycles x)]
  exact hmono.monotone.map_isLeast h

/-- A date that is found is found some cycles later too, as long as it is not beyond the last
year. -/
theorem addCycles_of_found {d : Date} (h : e.SearchEnds settings c (.ok (some d)))
    (hmax : d.year + 400 * q ≤ settings.maxYear) :
    e.SearchEnds settings (c.addCycles q) (.ok (some (d.addCycles q))) := by
  obtain ⟨xs, hlength, hfirst, hspent, hleast, _⟩ := h
  refine ⟨xs.map (Candidate.addCycles q), by rw [List.length_map, hlength],
    listsFirst_addCycles hc hfirst, ?_, isLeast_accepts_addCycles hc hleast, hmax⟩
  intro hall
  refine hspent fun x hx => ?_
  obtain ⟨hyear, hrejected⟩ := hall _ (List.mem_map_of_mem hx)
  rw [accepts_addCycles] at hrejected
  simp only [Candidate.addCycles] at hyear
  exact ⟨by omega, hrejected⟩

theorem addCycles_of_error {attempts month day : ℕ} {year : ℤ}
    (h : e.SearchEnds settings c (.error (.unsatisfiable attempts year month day)))
    (hmax : year + 400 * q ≤ settings.maxYear) : e.SearchEnds settings (c.addCycles q)
      (.error (.unsatisfiable attempts (year + 400 * q) month day)) := by
  obtain ⟨xs, hlength, hfirst, hall, last, hlast, heq⟩ := h
  cases heq
  refine ⟨xs.map (Candidate.addCycles q), by rw [List.length_map, hlength],
    listsFirst_addCycles hc hfirst, ?_,
    last.addCycles q, by rw [List.getLast?_map, hlast]; rfl, rfl⟩
  intro y hy
  obtain ⟨x, hx, rfl⟩ := List.mem_map.mp hy
  rw [accepts_addCycles]
  have hyear : x.year ≤ last.year := Candidate.year_le (hfirst.le_getLast hlast hx)
  refine ⟨?_, (hall x hx).2⟩
  simp only [Candidate.addCycles]
  omega

end Later

end SearchEnds

/-- The question for the next occurrence is one search, from the least legal reading on. -/
theorem nextFrom_search (he : e.WithinDomains) (settings : Settings) (start : Moment)
    (inclusive : Bool) : ∃ (r : Reading) (result : Except SearchError (Option Moment)),
    IsLeast {r ∈ e.readings settings | r ∈ e.searched settings start inclusive} r ∧
    e.SearchEnds settings r.date (result.map (·.map Moment.date)) ∧
    e.nextFrom start inclusive settings = result.mapError .search := by
  obtain ⟨s, hstart, hs, _⟩ := Session.start_eq_ok he settings
  obtain ⟨r, hr, hsearch⟩ := Session.first_search he hs start inclusive
  exact ⟨r, _, hr, hsearch.outcome, nextFrom_eq hstart⟩

theorem nextFrom_addCycles_search (he : e.WithinDomains) (hmin : settings.minYear ≤ start.date.year)
    (hmax : start.date.year + 400 * q ≤ settings.maxYear) {r : Reading}
    (hr : IsLeast {r ∈ e.readings settings | r ∈ e.searched settings start inclusive} r)
    {outcome : Except SearchError (Option Date)}
    (hends : e.SearchEnds settings (r.date.addCycles q) outcome) :
    ∃ result : Except SearchError (Option Moment), result.map (·.map Moment.date) = outcome ∧
      e.nextFrom (start.addCycles q) inclusive settings = result.mapError .search := by
  obtain ⟨r', result, hr', hends', heq⟩ :=
    nextFrom_search he settings (start.addCycles q) inclusive
  have hwanted : (¬ (start.addCycles q).Misses e settings (inclusive = true ∧ start.IsFull)) ↔
      ¬ start.Misses e settings (inclusive = true ∧ start.IsFull) :=
    not_congr (misses_addCycles hmin hmax)
  have hleast : IsLeast {r ∈ e.readings settings |
      r ∈ e.searched settings (start.addCycles q) inclusive} (r.addCycles q) :=
    isLeast_addCycles (fun x => mem_readings_addCycles) hmin hwanted hr
  obtain rfl : r' = r.addCycles q := hr'.unique hleast
  exact ⟨result, hends'.unique hends, heq⟩

theorem Answers.addCycles {r : Moment} (h : e.Answers settings start inclusive (some r))
    (hmin : settings.minYear ≤ start.date.year)
    (hmax : r.date.year + 400 * q ≤ settings.maxYear) :
    e.Answers settings (start.addCycles q) inclusive (some (r.addCycles q)) := by
  obtain ⟨hfull, hoffset, _, hleast⟩ := h
  refine ⟨hfull, hoffset, hmax, ?_⟩
  exact isLeast_addCycles (fun x => mem_due_addCycles) hmin Iff.rfl hleast

/-- Schedules repeat with the calendar. From a start some cycles later the next occurrence is the
one of the same name that many cycles later, and a failed search fails with as many attempts on
the date of the same name, unless that lies beyond the last year. -/
theorem nextFrom_addCycles {line : String} {e : Entry} (h : read line = .ok e)
    (settings : Settings) {start : Moment} (hmin : settings.minYear ≤ start.date.year)
    (inclusive : Bool) (q : ℕ) :
    (∀ r, e.nextFrom start inclusive settings = .ok (some r) →
      r.date.year + 400 * q ≤ settings.maxYear →
      e.nextFrom (start.addCycles q) inclusive settings = .ok (some (r.addCycles q))) ∧
    ∀ attempts year month day, e.nextFrom start inclusive settings =
        .error (.search (.unsatisfiable attempts year month day)) →
      year + 400 * q ≤ settings.maxYear →
      e.nextFrom (start.addCycles q) inclusive settings =
        .error (.search (.unsatisfiable attempts (year + 400 * q) month day)) := by
  have he := read_withinDomains h
  obtain ⟨r₀, result, hr₀, hends, heq⟩ := nextFrom_search he settings start inclusive
  have hfrom : start.reading ≤ r₀ := Moment.reading_le_of_mem_onward hr₀.1.2
  have hyear₀ : start.date.year ≤ r₀.date.year := Candidate.year_le (Reading.date_le hfrom)
  have hmin₀ : settings.minYear ≤ r₀.date.year := hmin.trans hyear₀
  constructor
  · intro r hr hmax
    have hanswers := nextFrom_answers he hr
    rw [heq] at hr
    cases result with
    | error cause => contradiction
    | ok c =>
      obtain rfl : c = some r := Except.ok.inj hr
      have hends : e.SearchEnds settings r₀.date (.ok (some r.date)) := hends
      have hyear : r₀.date.year ≤ r.date.year := hends.year_le_of_found
      obtain ⟨later, houtcome, hquestion⟩ := nextFrom_addCycles_search he hmin (by omega) hr₀
        (hends.addCycles_of_found hmin₀ hmax)
      cases later with
      | error cause => contradiction
      | ok c =>
        have hquestion : e.nextFrom (start.addCycles q) inclusive settings = .ok c := hquestion
        rw [hquestion, (hanswers.addCycles hmin hmax).unique (nextFrom_answers he hquestion)]
  · intro attempts year month day hr hmax
    rw [heq] at hr
    cases result with
    | ok c => contradiction
    | error cause =>
      obtain rfl : cause = .unsatisfiable attempts year month day :=
        OccurrenceError.search.inj (Except.error.inj hr)
      have hends : e.SearchEnds settings r₀.date
        (.error (.unsatisfiable attempts year month day)) := hends
      have hyear : r₀.date.year ≤ year := hends.year_le_of_error
      obtain ⟨later, houtcome, hquestion⟩ := nextFrom_addCycles_search he hmin (by omega) hr₀
        (hends.addCycles_of_error hmin₀ hmax)
      cases later with
      | ok c => contradiction
      | error cause => rw [hquestion, Except.error.inj houtcome]; rfl

/-- From 1889 on the search gives up in 1922, and from 1923 on it finds the next 29th of February
that is a Wednesday. A cycle later it gives up in 2322, and the Wednesday is in 2328. -/
theorem nextFrom_addCycles_leap_wednesday : ∃ (e : Entry) (start start' r : Moment),
    read "0 0 29-31 2 3" = .ok e ∧ start.date.year = 1889 ∧ start'.date.year = 1923 ∧
    r.components.take 5 = [1928, 2, 29, 0, 0] ∧
    e.nextFrom start = .error (.search (.unsatisfiable 101 1922 2 30)) ∧
    e.nextFrom (start.addCycles 1) = .error (.search (.unsatisfiable 101 2322 2 30)) ∧
    e.nextFrom start' false = .ok (some r) ∧
    e.nextFrom (start'.addCycles 1) false = .ok (some (r.addCycles 1)) := by
  let start : Moment :=
    { date := ⟨1889, 1, 1, by decide, by decide⟩, hour := 0, minute := 0,
      hour_lt := by decide, minute_lt := by decide }
  let start' : Moment :=
    { date := ⟨1923, 1, 1, by decide, by decide⟩, hour := 0, minute := 0,
      hour_lt := by decide, minute_lt := by decide }
  let r : Moment :=
    { date := ⟨1928, 2, 29, by decide, by decide⟩, hour := 0, minute := 0,
      hour_lt := by decide, minute_lt := by decide }
  obtain ⟨e, he, hfails, hfinds⟩ : ∃ e, read "0 0 29-31 2 3" = .ok e ∧
      e.nextFrom start = .error (.search (.unsatisfiable 101 1922 2 30)) ∧
      e.nextFrom start' false = .ok (some r) := exists_ok_of_decide (by decide +kernel)
  have hmin : Settings.default.minYear ≤ start.date.year := by decide
  have hmin' : Settings.default.minYear ≤ start'.date.year := by decide
  have hmax : (1922 : ℤ) + 400 * (1 : ℕ) ≤ Settings.default.maxYear := by decide
  have hmax' : r.date.year + 400 * (1 : ℕ) ≤ Settings.default.maxYear := by decide
  refine ⟨e, start, start', r, he, rfl, rfl, rfl, hfails, ?_, hfinds, ?_⟩
  · exact (nextFrom_addCycles he {} hmin true 1).2 _ _ _ _ hfails hmax
  · exact (nextFrom_addCycles he {} hmin' false 1).1 r hfinds hmax'

end Entry

end Crontab
