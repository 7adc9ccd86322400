import Crontab.Proofs.Truncated

/-! A reset from its seek to its last step. The seek puts the wheels on the least legal reading from
the reference on, so only an occurrence in the minute of the reference can be unwanted. The loops
that step over it have no bound of their own, but make at most one step between them. -/
namespace Crontab

namespace Odometer

/-- The legal readings of the wheels as rows of digits: a year that is not before `minYear`, and
set bits of the masks for the rest. -/
def legalRows (o : Odometer) (minYear : ℤ) : Set (List ℤ) :=
  {row | ∃ (year : ℤ) (month day hour minute : ℕ), row = [year, month, day, hour, minute] ∧
    minYear ≤ year ∧ o.month.mask.testBit month = true ∧ o.day.mask.testBit day = true ∧
    o.hour.mask.testBit hour = true ∧ o.minute.mask.testBit minute = true}

variable (o : Odometer) (minYear : ℤ) (t : Moment)

theorem mem_legalRows_iff (r : Reading) : r.downTo .minute ∈ o.legalRows minYear ↔
    o.Legal r ∧ minYear ≤ r.date.year := by
  constructor
  · intro h
    obtain ⟨year, month, day, hour, minute, hrow, hyear, hmonth, hday, hhour, hminute⟩ := h
    have hr : r = ⟨⟨year, month, day⟩, hour, minute⟩ := Reading.downTo_minute_injective hrow
    subst hr
    exact ⟨⟨hmonth, hday, hhour, hminute⟩, hyear⟩
  · intro h
    obtain ⟨⟨hmonth, hday, hhour, hminute⟩, hyear⟩ := h
    exact ⟨_, _, _, _, _, rfl, hyear, hmonth, hday, hhour, hminute⟩

/-- Seeking leaves the least legal row of digits that is not below the reference. -/
theorem seek_reading_isLeast :
    IsLeast {row ∈ o.legalRows minYear | t.components.take 5 ≤ row} (o.seek minYear t).reading := by
  obtain ⟨⟨⟨hlegal, hfrom⟩, hyear⟩, hleast⟩ := o.seek_isLeast minYear t
  refine ⟨⟨(o.mem_legalRows_iff minYear _).mpr ⟨hlegal, hyear⟩, hfrom⟩, ?_⟩
  intro row hrow
  obtain ⟨hmem, hle⟩ := hrow
  obtain ⟨year, month, day, hour, minute, rfl, _⟩ := id hmem
  let r : Reading := ⟨⟨year, month, day⟩, hour, minute⟩
  have hr : o.Legal r ∧ minYear ≤ r.date.year := (o.mem_legalRows_iff minYear r).mp hmem
  have hge : t.reading ≤ r := hle
  exact hleast ⟨⟨hr.1, hge⟩, hr.2⟩

end Odometer

/-- A reset first puts the wheels on the least legal reading from the reference on, whatever they
have shown before and wherever the year of the reference lies. From there it searches. -/
theorem Session.reset_seeks_least (s : Session) (t : Moment) :
    IsLeast {row ∈ s.odometer.legalRows s.settings.minYear | t.components.take 5 ≤ row}
      (s.aligned t).odometer.reading ∧
    (s.aligned t).odometer.masks = s.odometer.masks ∧
    s.reset t =
      ((s.aligned t).settle.skipTo (Almanac.gregorian.reaches t) t).reportsReset t := by
  refine ⟨?_, ?_, reset_eq_reportsReset s t⟩
  · exact s.odometer.seek_reading_isLeast s.settings.minYear t
  · exact s.odometer.seek_masks s.settings.minYear t

/-- The same moment without its seconds and parts of one. -/
def Moment.wholeMinute (t : Moment) : Moment :=
  { t with
    second := 0
    microsecond := 0
    second_lt := Nat.zero_lt_of_lt t.second_lt
    microsecond_lt := Nat.zero_lt_of_lt t.microsecond_lt }

/-- A loop over a step that finds the first occurrence onward, where only the reference itself may
be unwanted, ends after one step at most. -/
theorem Step.exists_skips {e : Entry} {settings : Settings}
    {wanted : Moment → Except AlmanacError Bool} {t : Moment} {p q : Prop} (limit : Moment)
    {step : Step} (he : e.WithinDomains) (hs : step.session.Serves e settings)
    (hcarries : step.Carries t.offset)
    (hfinds : step.Finds settings {r ∈ e.due settings | r ∈ t.onward p})
    (hwanted : Picks wanted t p q) :
    ∃ n ≤ 1, (n = 1 → p ∧ ¬ q) ∧ step.Skips wanted n (step.skipTo wanted limit) := by
  rcases skips_cases he hs hcarries hfinds hwanted with
    ⟨_, hskips⟩ | ⟨c, _, _, _, hp, hq, hskips⟩
  · refine ⟨0, zero_le_one, fun h => absurd h zero_ne_one, ?_⟩
    rwa [hskips.skipTo_eq zero_le_one]
  · refine ⟨1, le_rfl, fun _ => ⟨hp, hq⟩, ?_⟩
    rwa [hskips.skipTo_eq le_rfl]

namespace Session

/-- The loop of a reset makes `j` steps and the loop of the question after it makes `k` steps, both
without a bound on their steps. -/
structure Loops (s : Session) (t : Moment) (inclusive : Bool) (j k : ℕ) : Prop where
  reset : ∃ last, (s.aligned t).settle.Skips (Almanac.gregorian.reaches t) j last ∧
    s.reset t = last.reportsReset t
  first : (s.reset t).Skips (Almanac.gregorian.counts t inclusive) k (s.first t inclusive)

variable {e : Entry} {settings : Settings} {s : Session} {t : Moment}

section Loops

variable (he : e.WithinDomains) (hs : s.Serves e settings)
include he hs

/-- An occurrence that the first search finds before the reference lies in the same minute, and the
one after it lies after the reference. -/
theorem settle_before {c : Moment} (hc : (s.aligned t).settle.result = .ok (some c))
    (hlt : c < t) : c = t.wholeMinute ∧
      ∀ r, (s.aligned t).settle.session.next.result = .ok r →
        (s.aligned t).settle.session.next.session.current = r ∧ ∀ u, r = some u → t < u := by
  have hserves := settle_serves he (hs.aligned t)
  have hfinds := aligned_settle_finds he hs t
  unfold Step.Finds at hfinds
  rw [hc] at hfinds
  obtain ⟨hholds, ⟨⟨_, honward⟩, _⟩, _⟩ := hfinds
  have hle : t.reading ≤ c.reading := Moment.mem_onward_true.mp honward
  have hreading : c.reading = t.reading := by
    refine hle.antisymm' (not_lt.mp fun hgt => ?_)
    exact (Moment.not_lt_iff_onward hholds.second hholds.microsecond).mpr (Or.inl hgt) hlt
  constructor
  · have hoffset : c.offset = t.offset := (settle_carries (s.aligned t)).result c hc
    exact Moment.eq_of_reading_eq hreading hholds.second hholds.microsecond hoffset
  · intro r hr
    refine ⟨(next_searchesFrom he hserves hholds.current).current r hr, ?_⟩
    rintro u rfl
    have hnext := next_finds he hserves hholds
    unfold Step.Finds at hnext
    rw [hr] at hnext
    obtain ⟨hu, ⟨⟨_, hgt⟩, _⟩, _⟩ := hnext
    rw [hreading] at hgt
    exact (Moment.lt_iff_onward hu.second hu.microsecond).mpr (Or.inl hgt)

/-- The loop of a reset steps on only if the reference is not a full minute, and the loop after it
only if the reference is one. -/
theorem exists_loops (t : Moment) (inclusive : Bool) :
    ∃ j k, j + k ≤ 1 ∧ s.Loops t inclusive j k := by
  obtain ⟨j, hj, hnotFull, hreset⟩ := Step.exists_skips t he (settle_serves he (hs.aligned t))
    (settle_carries (s.aligned t)) (aligned_settle_finds he hs t)
    (Almanac.gregorian_compares.reaches_picks t True)
  obtain ⟨k, hk, hfull, hfirst⟩ := Step.exists_skips t he (reset_serves he hs t)
    (reset_carries s t) (reset_finds he hs t)
    (Almanac.gregorian_compares.counts_picks t inclusive)
  refine ⟨j, k, ?_, ⟨_, hreset, reset_eq_reportsReset s t⟩, hfirst⟩
  by_contra hlt
  have hj' : j = 1 := by omega
  have hk' : k = 1 := by omega
  exact (hnotFull hj').2 (hfull hk').1

end Loops

end Session

namespace Occurrences

/-- One pull from the stream passes over `k` occurrences: its loop makes `k` steps, without a bound
on them, and the pull gives what the last one leaves. -/
inductive PassesOver : Occurrences → ℕ → Prop
  | unopened {e : Entry} {start : Moment} {inclusive : Bool} {settings : Settings} {s : Session}
    {k : ℕ} {last : Step} (hstart : Session.start e settings = .ok s)
    (hskips : (s.reset start).Skips (Almanac.gregorian.counts start inclusive) k last)
    (hpull : (unopened e start inclusive settings).pull = after last start inclusive) :
    PassesOver (unopened e start inclusive settings) k
  | opened {s : Session} {start : Moment} {inclusive : Bool} {k : ℕ} {last : Step}
    (hskips : s.next.Skips (Almanac.gregorian.counts start inclusive) k last)
    (hpull : (opened s start inclusive).pull = after last start inclusive) :
    PassesOver (opened s start inclusive) k
  | finished : PassesOver finished 0

/-- A stream that has ended, or that stands on an occurrence onward from its start. -/
inductive Continues (e : Entry) (settings : Settings) (start : Moment) (inclusive : Bool) :
    Occurrences → Prop
  | opened {s : Session} {t : Moment} (hs : s.Serves e settings) (hholds : s.Holds t)
    (hoffset : s.offset = start.offset)
    (honward : t.reading ∈ start.onward (inclusive = true ∧ start.IsFull)) :
    Continues e settings start inclusive (opened s start inclusive)
  | finished : Continues e settings start inclusive finished

variable {e : Entry} {settings : Settings} {start : Moment} {inclusive : Bool}
  {stream : Occurrences}

theorem after_continues {step : Step} (hs : step.session.Serves e settings)
    (hoffset : step.session.offset = start.offset) {R : Set Reading}
    (hfinds : step.Finds settings {r ∈ e.due settings | r ∈ R})
    (honward : R ⊆ start.onward (inclusive = true ∧ start.IsFull)) :
    Continues e settings start inclusive (after step start inclusive).1 := by
  unfold Step.Finds at hfinds
  unfold after
  split
  · exact .finished
  · exact .finished
  · next t hresult =>
    rw [hresult] at hfinds
    obtain ⟨hholds, ⟨⟨_, ht⟩, _⟩, _⟩ := hfinds
    exact .opened hs hholds hoffset (honward ht)

namespace Continues

variable (he : e.WithinDomains) (h : Continues e settings start inclusive stream)
include he h

theorem pull : Continues e settings start inclusive stream.pull.1 := by
  cases h with
  | opened hs hholds hoffset honward =>
    rw [pull_opened he hs hholds hoffset honward]
    refine after_continues (Session.next_serves he hs)
      ((Session.next_carries _).session.trans hoffset) (Session.next_finds he hs hholds) ?_
    intro r hr
    exact start.isUpperSet_onward _ (le_of_lt hr) honward
  | finished => exact .finished

theorem later (n : ℕ) : Continues e settings start inclusive (stream.later n) := by
  induction n generalizing stream with
  | zero => exact h
  | succ n ih => exact ih (h.pull he)

theorem passesOver : stream.PassesOver 0 := by
  cases h with
  | opened hs hholds hoffset honward =>
    exact .opened (next_skips he hs hholds hoffset honward)
      (pull_opened he hs hholds hoffset honward)
  | finished => exact .finished

end Continues

end Occurrences

namespace Entry

/-- The loops after the first search of a reset, which have no bound of their own, make at most one
step between them. The question for the next occurrence makes no more than that one, and a stream
passes over at most one occurrence, with its first pull. -/
theorem backstops_end {line : String} {e : Entry} (h : read line = .ok e) (settings : Settings)
    (start : Moment) :
    (∀ s, Session.Reachable e settings s →
      (∀ c, (s.aligned start).settle.result = .ok (some c) → c < start →
        c = start.wholeMinute ∧
        ∀ r, (s.aligned start).settle.session.next.result = .ok r →
          (s.aligned start).settle.session.next.session.current = r ∧
          ∀ u, r = some u → start < u) ∧
      ∀ inclusive, ∃ j k, j + k ≤ 1 ∧ s.Loops start inclusive j k) ∧
    ∀ inclusive,
      (∃ s j k, Session.start e settings = .ok s ∧ j + k ≤ 1 ∧ s.Loops start inclusive j k ∧
        e.nextFrom start inclusive settings =
          (s.first start inclusive).result.mapError .search) ∧
      (∃ k ≤ 1, (e.occurrences start inclusive settings).PassesOver k) ∧
      ∀ n, ((e.occurrences start inclusive settings).later (n + 1)).PassesOver 0 := by
  have he := read_withinDomains h
  constructor
  · intro s hs
    have hserves := hs.serves he
    exact ⟨fun c => Session.settle_before he hserves, Session.exists_loops he hserves start⟩
  · intro inclusive
    obtain ⟨s, hstart, hs, _⟩ := Session.start_eq_ok he settings
    obtain ⟨j, k, hjk, hloops⟩ := Session.exists_loops he hs start inclusive
    have hpull : (e.occurrences start inclusive settings).pull =
        Occurrences.after (s.first start inclusive) start inclusive :=
      Occurrences.pull_occurrences hstart
    refine ⟨⟨s, j, k, hstart, hjk, hloops, nextFrom_eq hstart⟩, ⟨k, by omega, ?_⟩, fun n => ?_⟩
    · exact .unopened hstart hloops.first hpull
    · rw [Occurrences.later_succ, hpull]
      have hfirst := Occurrences.after_continues (Session.first_serves he hs start inclusive)
        (Session.first_carries s start inclusive).session
        (Session.first_finds he hs start inclusive) subset_rfl
      exact (hfirst.later he n).passesOver he

/-- From within the minute of an occurrence: the search finds that minute, which is over, and one
step leads to the next occurrence. -/
theorem backstops_end_within_minute : ∃ (e : Entry) (s : Session) (start c u : Moment),
    read "0 9,21 * * *" = .ok e ∧ Session.start e {} = .ok s ∧
    start.components = [2021, 6, 15, 9, 0, 30, 0] ∧
    (s.aligned start).settle.result = .ok (some c) ∧ c < start ∧ c = start.wholeMinute ∧
    (s.aligned start).settle.session.next.result = .ok (some u) ∧ start < u ∧
    (∃ j k, j + k ≤ 1 ∧ s.Loops start false j k) ∧
    ∃ k ≤ 1, (e.occurrences start false {}).PassesOver k := by
  let start : Moment :=
    { date := ⟨2021, 6, 15, by decide, by decide⟩, hour := 9, minute := 0, second := 30,
      hour_lt := by decide, minute_lt := by decide }
  let c : Moment :=
    { date := ⟨2021, 6, 15, by decide, by decide⟩, hour := 9, minute := 0,
      hour_lt := by decide, minute_lt := by decide }
  let u : Moment :=
    { date := ⟨2021, 6, 15, by decide, by decide⟩, hour := 21, minute := 0,
      hour_lt := by decide, minute_lt := by decide }
  have hrun : Session.testStart "0 9,21 * * *" {} (fun s =>
      decide ((s.aligned start).settle.result = .ok (some c)) &&
        decide ((s.aligned start).settle.session.next.result = .ok (some u))) = true := by
    decide +kernel
  obtain ⟨e, s, he, hs, htest⟩ := Session.exists_of_testStart hrun
  simp only [Bool.and_eq_true, decide_eq_true_eq] at htest
  obtain ⟨hsettle, hnext⟩ := htest
  have hbefore : c < start := by decide
  obtain ⟨hcalls, hstreams⟩ := backstops_end he {} start
  obtain ⟨hfirst, hloops⟩ := hcalls s (.start hs)
  obtain ⟨hminute, hlater⟩ := hfirst c hsettle hbefore
  exact ⟨e, s, start, c, u, he, hs, rfl, hsettle, hbefore, hminute, hnext,
    (hlater (some u) hnext).2 u rfl, hloops false, (hstreams false).2.1⟩

end Entry

end Crontab
