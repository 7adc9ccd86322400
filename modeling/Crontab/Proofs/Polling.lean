import Crontab.Proofs.Failure

/-! The same question from a later start. Up to the first occurrence its answer does not change,
and a search from a later start passes over no more dates. -/
namespace Crontab

namespace Moment

variable {start later : Moment}

theorem reading_le_of_not_lt (hle : ¬ later < start) : start.reading ≤ later.reading := by
  by_contra hlt
  exact hle (lt_iff.mpr (Or.inl (not_le.mp hlt)))

/-- Within one minute only the first moment is full. -/
theorem isFull_of_not_lt (hle : ¬ later < start) (hreading : later.reading = start.reading)
    (hfull : later.IsFull) : start.IsFull := by
  rw [lt_iff, hfull.1, hfull.2] at hle
  simp only [hreading, lt_irrefl, true_and, false_or] at hle
  constructor <;> omega

theorem onward_subset (hle : ¬ later < start) {p q : Prop}
    (hpq : later.reading = start.reading → q → p) : later.onward q ⊆ start.onward p := by
  rintro r (hlt | ⟨hq, rfl⟩)
  · exact Or.inl ((reading_le_of_not_lt hle).trans_lt hlt)
  · rcases (reading_le_of_not_lt hle).lt_or_eq with hlt | heq
    · exact Or.inl hlt
    · exact Or.inr ⟨hpq heq.symm hq, heq⟩

end Moment

namespace Entry

variable {e : Entry} {settings : Settings} {start later : Moment} {inclusive : Bool}

def dueFrom (e : Entry) (settings : Settings) (start : Moment) (inclusive : Bool) : Set Reading :=
  {r ∈ e.due settings | r ∈ start.onward (inclusive = true ∧ start.IsFull)}

theorem dueFrom_subset (hle : ¬ later < start) :
    e.dueFrom settings later inclusive ⊆ e.dueFrom settings start inclusive := by
  rintro r ⟨hdue, honward⟩
  refine ⟨hdue, Moment.onward_subset hle (fun hreading h => ?_) honward⟩
  exact ⟨h.1, Moment.isFull_of_not_lt hle hreading h.2⟩

theorem searched_subset (hle : ¬ later < start) :
    e.searched settings later inclusive ⊆ e.searched settings start inclusive := by
  refine Moment.onward_subset hle fun hreading hlater hmisses => hlater ?_
  obtain ⟨hdue, hyear, hunwanted⟩ := hmisses
  have hyear' : later.date.year = start.date.year := congrArg (·.date.year) hreading
  refine ⟨hreading ▸ hdue, hyear'.trans_le hyear, fun h => hunwanted ⟨h.1, ?_⟩⟩
  exact Moment.isFull_of_not_lt hle hreading h.2

/-- The search from a start meets the same occurrences of the window as the question asks for. -/
theorem mem_dueFrom_iff_searched {r : Reading} (hdue : r ∈ e.due settings)
    (hyear : r.date.year ≤ settings.maxYear) :
    r ∈ e.dueFrom settings start inclusive ↔ r ∈ e.searched settings start inclusive := by
  rw [dueFrom, searched, Moment.onward, Moment.onward, Set.mem_ofPred_eq, Set.mem_ofPred_eq,
    Set.mem_ofPred_eq, and_iff_right hdue]
  refine or_congr_right (and_congr_left fun hreading => ?_)
  subst hreading
  have hyear : start.date.year ≤ settings.maxYear := hyear
  simp only [Moment.Misses, hdue, hyear, true_and, not_not]

/-- If every occurrence of the window has one of a smaller set before it or on its date, then the
smaller set has no more dates to pass over. -/
theorem passed_subset {R R' : Set Reading} (hsub : R' ⊆ R)
    (hbefore : ∀ r ∈ R, r ∈ e.due settings → r.date.year ≤ settings.maxYear →
      ∃ r' ∈ R', r' ∈ e.due settings ∧ r'.date ≤ r.date) :
    e.passed settings R' ⊆ e.passed settings R := by
  intro x hx
  obtain ⟨hx, hyear, ⟨q, hq, hqx⟩, hfirst⟩ := hx
  refine ⟨hx, hyear, ⟨q, hsub hq, hqx⟩, fun r hr hdue => ?_⟩
  by_cases hwindow : r.date.year ≤ settings.maxYear
  · obtain ⟨r', hr', hdue', hle⟩ := hbefore r hr hdue hwindow
    exact (hfirst r' hr' hdue').trans_le hle
  · exact Candidate.lt_iff.mpr (Or.inl (hyear.trans_lt (not_le.mp hwindow)))

/-- The first occurrence from a start on, or nothing when all of them lie beyond the last year. -/
def Answers (e : Entry) (settings : Settings) (start : Moment) (inclusive : Bool) :
    Option Moment → Prop
  | none => ∀ r ∈ e.dueFrom settings start inclusive, settings.maxYear < r.date.year
  | some t => t.IsFull ∧ t.offset = start.offset ∧ t.date.year ≤ settings.maxYear ∧
      IsLeast (e.dueFrom settings start inclusive) t.reading

section Question

variable (he : e.WithinDomains)
include he

theorem nextFrom_answers {r : Option Moment} (hr : e.nextFrom start inclusive settings = .ok r) :
    e.Answers settings start inclusive r := by
  obtain ⟨s, hstart, hs, _⟩ := Session.start_eq_ok he settings
  have hoffset := (Session.first_carries s start inclusive).session
  have hfinds := Session.first_finds he hs start inclusive
  rw [nextFrom_eq hstart] at hr
  unfold Step.Finds at hfinds
  cases hresult : (s.first start inclusive).result with
  | error cause =>
    rw [hresult] at hr
    contradiction
  | ok c =>
    rw [hresult] at hr hfinds
    obtain rfl : c = r := Except.ok.inj hr
    cases c with
    | none => exact hfinds.2
    | some t =>
      obtain ⟨hholds, hleast, hyear⟩ := hfinds
      exact ⟨⟨hholds.second, hholds.microsecond⟩, hholds.offset.trans hoffset, hyear, hleast⟩

/-- The question is answered exactly if the budget allows for the dates that are passed over. -/
theorem nextFrom_ok_iff : (∃ r, e.nextFrom start inclusive settings = .ok r) ↔
    (e.passed settings (e.searched settings start inclusive)).ncard ≤ settings.maxInvalidDates := by
  obtain ⟨s, hstart, hs, _⟩ := Session.start_eq_ok he settings
  obtain ⟨r, hr, hsearch⟩ := Session.first_search he hs start inclusive
  have hfails := hsearch.fails_iff he (start.isUpperSet_onward _) hr
  rw [← not_lt, searched, ← hfails, nextFrom_eq hstart]
  cases (s.first start inclusive).result with
  | error cause =>
    constructor
    · intro h
      obtain ⟨r, h⟩ := h
      contradiction
    · exact fun h => absurd ⟨cause, rfl⟩ h
  | ok c =>
    constructor
    · intro _ h
      obtain ⟨cause, h⟩ := h
      contradiction
    · exact fun _ => ⟨c, rfl⟩

/-- An answered question is answered again from a later start, unless that start leaves the answer
behind. -/
theorem nextFrom_ok_of_later (hle : ¬ later < start) {c : Option Moment}
    (hc : e.nextFrom start inclusive settings = .ok c)
    (hkept : ∀ t, c = some t → t.reading ∈ e.dueFrom settings later inclusive) :
    ∃ c', e.nextFrom later inclusive settings = .ok c' := by
  have hanswer := nextFrom_answers he hc
  have hspent := (nextFrom_ok_iff he).mp ⟨c, hc⟩
  rw [nextFrom_ok_iff he]
  refine (Set.ncard_le_ncard ?_ (finite_passed he settings _)).trans hspent
  refine passed_subset (searched_subset hle) fun r hr hdue hyear => ?_
  have hr := (mem_dueFrom_iff_searched hdue hyear).mpr hr
  cases c with
  | none => exact absurd hyear (not_le.mpr (hanswer r hr))
  | some t =>
    obtain ⟨_, _, htyear, _, hleast⟩ := hanswer
    have ht := hkept t rfl
    exact ⟨t.reading, (mem_dueFrom_iff_searched ht.1 htyear).mp ht, ht.1,
      Reading.date_le (hleast hr)⟩

end Question

namespace Answers

variable {c c' : Option Moment} (h : e.Answers settings start inclusive c)
include h

theorem of_later (hle : ¬ later < start) (hoffset : later.offset = start.offset)
    (hkept : ∀ t, c = some t → t.reading ∈ e.dueFrom settings later inclusive) :
    e.Answers settings later inclusive c := by
  have hsub : e.dueFrom settings later inclusive ⊆ e.dueFrom settings start inclusive :=
    dueFrom_subset hle
  cases c with
  | none => exact fun r hr => h r (hsub hr)
  | some t =>
    obtain ⟨hfull, hoffset', hyear, _, hleast⟩ := h
    exact ⟨hfull, hoffset'.trans hoffset.symm, hyear, hkept t rfl, fun r hr => hleast (hsub hr)⟩

theorem unique (h' : e.Answers settings start inclusive c') : c = c' := by
  cases c with
  | none =>
    cases c' with
    | none => rfl
    | some t =>
      obtain ⟨_, _, hyear, hmem, _⟩ := h'
      exact absurd hyear (not_le.mpr (h _ hmem))
  | some t =>
    obtain ⟨hfull, hoffset, hyear, hleast⟩ := h
    cases c' with
    | none => exact absurd hyear (not_le.mpr (h' _ hleast.1))
    | some t' =>
      obtain ⟨hfull', hoffset', _, hleast'⟩ := h'
      exact congrArg some (Moment.eq_of_reading_eq (hleast.unique hleast')
        (hfull.1.trans hfull'.1.symm) (hfull.2.trans hfull'.2.symm)
        (hoffset.trans hoffset'.symm))

theorem not_lt_of_later (hle : ¬ later < start) {t' : Moment}
    (h' : e.Answers settings later inclusive (some t')) : ∃ t, c = some t ∧ ¬ t' < t := by
  obtain ⟨_, _, hyear', hmem', _⟩ := h'
  have hmem := dueFrom_subset hle hmem'
  cases c with
  | none => exact absurd hyear' (not_le.mpr (h _ hmem))
  | some t =>
    obtain ⟨hfull, _, _, _, hleast⟩ := h
    refine ⟨t, rfl, fun hlt => ?_⟩
    rw [Moment.lt_iff, hfull.1, hfull.2] at hlt
    rcases hlt with hlt | ⟨_, hlt⟩
    · exact not_lt.mpr (hleast hmem) hlt
    · omega

end Answers

/-- Asking again from a later start with the same offset gives the same answer up to the first
occurrence, nothing once there is none left, and never an earlier occurrence. The later question
does not fail where the earlier answer still holds. -/
theorem nextFrom_stable {line : String} {e : Entry} (h : read line = .ok e) (settings : Settings)
    {start later : Moment} (hoffset : later.offset = start.offset) (hle : ¬ later < start)
    (inclusive : Bool) :
    (∀ r, e.nextFrom start inclusive settings = .ok (some r) →
      (if inclusive then ¬ r < later else later < r) →
      e.nextFrom later inclusive settings = .ok (some r)) ∧
    (e.nextFrom start inclusive settings = .ok none →
      e.nextFrom later inclusive settings = .ok none) ∧
    ∀ c c', e.nextFrom start inclusive settings = .ok c →
      e.nextFrom later inclusive settings = .ok c' →
      ∀ t', c' = some t' → ∃ t, c = some t ∧ ¬ t' < t := by
  have he := read_withinDomains h
  have hsame (c : Option Moment) (hc : e.nextFrom start inclusive settings = .ok c)
      (hkept : ∀ t, c = some t → t.reading ∈ e.dueFrom settings later inclusive) :
      e.nextFrom later inclusive settings = .ok c := by
    obtain ⟨c', hc'⟩ := nextFrom_ok_of_later he hle hc hkept
    have hanswer := (nextFrom_answers he hc).of_later hle hoffset hkept
    rw [hc', hanswer.unique (nextFrom_answers he hc')]
  refine ⟨fun r hr hbound => hsame _ hr fun t ht => ?_, fun hnone => hsame _ hnone ?_, ?_⟩
  · obtain rfl := Option.some.inj ht
    obtain ⟨hfull, _, _, hmem, _⟩ := nextFrom_answers he hr
    refine ⟨hmem.1, ?_⟩
    cases inclusive with
    | true => simpa [Moment.not_lt_iff_onward hfull.1 hfull.2] using hbound
    | false => simpa [Moment.lt_iff_onward hfull.1 hfull.2] using hbound
  · exact fun t ht => nomatch ht
  · rintro c c' hc hc' t' rfl
    exact (nextFrom_answers he hc).not_lt_of_later hle (nextFrom_answers he hc')

/-- From within the minute of one leap day up to the next one, with a budget for just the three
years between them. -/
theorem nextFrom_stable_leap_day : ∃ (e : Entry) (settings : Settings) (start later r : Moment),
    read "0 0 29 2 *" = .ok e ∧ settings.maxInvalidDates = 3 ∧
    later.offset = start.offset ∧ ¬ later < start ∧ r.date.year = 2024 ∧ later < r ∧
    e.nextFrom start true settings = .ok (some r) ∧
    e.nextFrom later true settings = .ok (some r) := by
  let settings : Settings := { maxInvalidDates := 3 }
  let start : Moment :=
    { date := ⟨2020, 2, 29, by decide, by decide⟩, hour := 0, minute := 0, second := 30,
      hour_lt := by decide, minute_lt := by decide }
  let later : Moment :=
    { date := ⟨2024, 2, 28, by decide, by decide⟩, hour := 23, minute := 59, second := 59,
      hour_lt := by decide, minute_lt := by decide }
  let r : Moment :=
    { date := ⟨2024, 2, 29, by decide, by decide⟩, hour := 0, minute := 0,
      hour_lt := by decide, minute_lt := by decide }
  obtain ⟨e, he, hfirst⟩ : ∃ e, read "0 0 29 2 *" = .ok e ∧
      e.nextFrom start true settings = .ok (some r) := exists_ok_of_decide (by decide +kernel)
  have hoffset : later.offset = start.offset := rfl
  have hle : ¬ later < start := by decide
  have hbefore : later < r := by decide
  have hnot : ¬ r < later := by decide
  exact ⟨e, settings, start, later, r, he, rfl, hoffset, hle, rfl, hbefore, hfirst,
    (nextFrom_stable he settings hoffset hle true).1 r hfirst hnot⟩

end Entry

end Crontab
