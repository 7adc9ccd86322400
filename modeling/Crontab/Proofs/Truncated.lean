import Crontab.Occurrences.Truncated
import Crontab.Proofs.Cursor

/-! Streams with a limit. The pulls return the beginning of what the stream tells, its occurrences
in their order and then its failure, and after that nothing. Pulls beyond the limit leave the
stream alone. -/
namespace Crontab

namespace Occurrences

def later (s : Occurrences) (n : ℕ) : Occurrences :=
  (fun s => s.pull.1)^[n] s

/-- The pulls give these occurrences one after another, and then the stream ends or fails. -/
inductive Streams : Occurrences → List Moment → Option OccurrenceError → Prop
  | ends {s : Occurrences} : s.pull.2 = .ok none → Streams s [] none
  | fails {s : Occurrences} {cause : OccurrenceError} :
    s.pull.2 = .error cause → Streams s [] (some cause)
  | gives {s : Occurrences} {t : Moment} {xs : List Moment} {failure : Option OccurrenceError} :
    s.pull.2 = .ok (some t) → Streams s.pull.1 xs failure → Streams s (t :: xs) failure

/-- All that a stream tells: its occurrences, and its failure once. -/
def told (xs : List Moment) (failure : Option OccurrenceError) :
    List (Except OccurrenceError (Option Moment)) :=
  xs.map (fun t => .ok (some t)) ++ failure.toList.map .error

/-- The results of `n` pulls of which `k` may reach the stream: the beginning of what it tells, and
then nothing. -/
def heard (xs : List Moment) (failure : Option OccurrenceError) (k n : ℕ) :
    List (Except OccurrenceError (Option Moment)) :=
  (told xs failure).take k ++
    List.replicate (n - ((told xs failure).take k).length) (.ok none)

variable {s : Occurrences} {xs ys : List Moment} {failure failure' : Option OccurrenceError}

theorem heard_zero (n : ℕ) : heard xs failure 0 n = List.replicate n (.ok none) := by
  simp [heard]

theorem heard_cons (t : Moment) (k n : ℕ) :
    heard (t :: xs) failure (k + 1) (n + 1) = .ok (some t) :: heard xs failure k n := by
  simp [heard, told]

theorem heard_nil_none (k n : ℕ) : heard [] none k n = List.replicate n (.ok none) := by
  simp [heard, told]

theorem heard_nil {k : ℕ} (hk : 0 < k) (n : ℕ) : heard [] failure k (n + 1) =
    failure.elim (.ok none) .error :: List.replicate n (.ok none) := by
  obtain ⟨k, rfl⟩ := Nat.exists_eq_add_of_lt hk
  cases failure with
  | none => simp [heard, told, List.replicate_succ]
  | some cause => simp [heard, told]

theorem later_succ (s : Occurrences) (n : ℕ) : s.later (n + 1) = s.pull.1.later n :=
  Function.iterate_succ_apply _ n s

theorem later_finished (n : ℕ) : finished.later n = finished := by
  induction n with
  | zero => rfl
  | succ n ih =>
    rw [later_succ]
    exact ih

theorem after_finished {step : Step} {start : Moment} {inclusive : Bool}
    (h : ∀ t, (after step start inclusive).2 ≠ .ok (some t)) :
    (after step start inclusive).1 = finished := by
  unfold after at h ⊢
  split
  · rfl
  · rfl
  · next t hresult =>
    rw [hresult] at h
    exact absurd rfl (h t)

/-- A stream that has given no occurrence is finished, after an error as after its end. -/
theorem pull_finished (h : ∀ t, s.pull.2 ≠ .ok (some t)) : s.pull.1 = finished := by
  cases s with
  | unopened e start inclusive settings =>
    rw [pull] at h ⊢
    cases hstart : Session.start e settings with
    | error cause => rfl
    | ok s =>
      rw [hstart] at h
      exact after_finished h
  | opened s start inclusive => exact after_finished h
  | finished => rfl

theorem Streams.unique (h : s.Streams xs failure) (h' : s.Streams ys failure') :
    xs = ys ∧ failure = failure' := by
  induction h generalizing ys failure' with
  | ends hpull =>
    cases h' with
    | ends => exact ⟨rfl, rfl⟩
    | fails hpull' | gives hpull' => cases hpull.symm.trans hpull'
  | fails hpull =>
    cases h' with
    | fails hpull' =>
      cases hpull.symm.trans hpull'
      exact ⟨rfl, rfl⟩
    | ends hpull' | gives hpull' => cases hpull.symm.trans hpull'
  | gives hpull _ ih =>
    cases h' with
    | gives hpull' hrest =>
      cases hpull.symm.trans hpull'
      obtain ⟨rfl, rfl⟩ := ih hrest
      exact ⟨rfl, rfl⟩
    | ends hpull' | fails hpull' => cases hpull.symm.trans hpull'

theorem run_succ_of_gives {t : Moment} (h : s.pull.2 = .ok (some t)) (n : ℕ) :
    s.run (n + 1) = (t :: (s.pull.1.run n).1, (s.pull.1.run n).2) := by
  rcases hpull : s.pull with ⟨rest, result⟩
  rw [hpull] at h
  obtain rfl : result = .ok (some t) := h
  rw [run, hpull]

/-- A run that stops before its number of pulls has seen the whole stream. -/
theorem exists_streams_of_run {n : ℕ} (h : (s.run n).2 ≠ .limit) :
    ∃ xs failure, s.Streams xs failure := by
  induction n generalizing s with
  | zero => exact absurd rfl h
  | succ n ih =>
    cases hpull : s.pull.2 with
    | error cause => exact ⟨[], some cause, .fails hpull⟩
    | ok c =>
      cases c with
      | none => exact ⟨[], none, .ends hpull⟩
      | some t =>
        rw [run_succ_of_gives hpull] at h
        obtain ⟨xs, failure, hrest⟩ := ih h
        exact ⟨t :: xs, failure, .gives hpull hrest⟩

end Occurrences

/-- The occurrences of an entry come to an end, since the years do. -/
theorem Entry.exists_streams {e : Entry} (he : e.WithinDomains) (settings : Settings)
    (start : Moment) (inclusive : Bool) :
    ∃ xs failure, (e.occurrences start inclusive settings).Streams xs failure := by
  obtain ⟨s, hstart, hs, _⟩ := Session.start_eq_ok he settings
  have hserves := Session.first_serves he hs start inclusive
  have hoffset := (Session.first_carries s start inclusive).session
  obtain ⟨S, hS⟩ := e.exists_lists settings start.offset
    (start.onward (inclusive = true ∧ start.IsFull))
  have hgives := Occurrences.run_gives he hserves hoffset (start.isUpperSet_onward _) subset_rfl
    (Session.first_finds he hs start inclusive) hS (S.length + 1)
    (Occurrences.pull_occurrences hstart)
  apply Occurrences.exists_streams_of_run (n := S.length + 1)
  intro hlimit
  rcases hrun : (e.occurrences start inclusive settings).run (S.length + 1) with ⟨items, ending⟩
  rw [hrun] at hgives hlimit
  obtain rfl : ending = .limit := hlimit
  have hle := hgives.1.length_le
  have hlength := hgives.2
  omega

namespace Truncated

open Occurrences

def later (t : Truncated) (n : ℕ) : Truncated :=
  (fun t => t.pull.1)^[n] t

def results : ℕ → Truncated → List (Except OccurrenceError (Option Moment))
  | 0, _ => []
  | n + 1, t => t.pull.2 :: results n t.pull.1

/-- How many of `n` pulls the limit lets through to the source. -/
def reach (t : Truncated) (n : ℕ) : ℕ :=
  t.limit.elim n fun limit => min n (limit - t.count)

variable {t : Truncated} {xs : List Moment} {failure : Option OccurrenceError}

theorem later_succ (t : Truncated) (n : ℕ) : t.later (n + 1) = t.pull.1.later n :=
  Function.iterate_succ_apply _ n t

theorem reach_zero (t : Truncated) : t.reach 0 = 0 := by
  unfold reach
  cases t.limit with
  | none => rfl
  | some limit => exact Nat.zero_min _

theorem reach_of_atLimit (h : t.limit.any (· ≤ t.count) = true) (n : ℕ) : t.reach n = 0 := by
  unfold reach
  cases hlimit : t.limit with
  | none =>
    rw [hlimit] at h
    contradiction
  | some limit =>
    rw [hlimit] at h
    have hle : limit ≤ t.count := of_decide_eq_true h
    simp only [Option.elim_some]
    omega

/-- Below the limit the first pull gets through, and an occurrence leaves room for one less. -/
theorem reach_succ (h : ¬ t.limit.any (· ≤ t.count) = true) (source : Occurrences) (n : ℕ) :
    t.reach (n + 1) = reach { t with source, count := t.count + 1 } n + 1 := by
  unfold reach
  cases hlimit : t.limit with
  | none => rfl
  | some limit =>
    rw [hlimit] at h
    have hlt : ¬ limit ≤ t.count := fun hle => h (decide_eq_true hle)
    simp only [Option.elim_some]
    omega

/-- The ways of a pull: the limit refuses it, or it gives the next occurrence, or the source has
no more of them. -/
theorem pull_cases (h : t.source.Streams xs failure) :
    (t.pull = (t, .ok none) ∧ ∀ n, t.reach n = 0) ∨
    (∃ m ys, xs = m :: ys ∧ t.source.pull.1.Streams ys failure ∧
      t.pull = ({ t with source := t.source.pull.1, count := t.count + 1 }, .ok (some m)) ∧
      ∀ n, t.reach (n + 1) =
        reach { t with source := t.source.pull.1, count := t.count + 1 } n + 1) ∨
    (xs = [] ∧ t.source.pull.1 = .finished ∧
      t.pull = ({ t with source := .finished }, failure.elim (.ok none) .error) ∧
      ∀ n, 0 < t.reach (n + 1)) := by
  by_cases hlimit : t.limit.any (· ≤ t.count) = true
  · left
    exact ⟨by rw [pull, if_pos hlimit], reach_of_atLimit hlimit⟩
  · right
    have hreach := reach_succ hlimit
    have hpos (n : ℕ) : 0 < t.reach (n + 1) := by
      rw [hreach .finished]
      exact Nat.succ_pos _
    cases h with
    | gives hnext hrest =>
      left
      refine ⟨_, _, rfl, hrest, ?_, hreach _⟩
      rw [pull, if_neg hlimit]
      simp only [hnext]
    | ends hnext =>
      right
      have hfinished : t.source.pull.1 = .finished := pull_finished (by simp [hnext])
      refine ⟨rfl, hfinished, ?_, hpos⟩
      rw [pull, if_neg hlimit]
      simp only [hnext, hfinished, Option.elim_none]
    | fails hnext =>
      right
      have hfinished : t.source.pull.1 = .finished := pull_finished (by simp [hnext])
      refine ⟨rfl, hfinished, ?_, hpos⟩
      rw [pull, if_neg hlimit]
      simp only [hnext, hfinished, Option.elim_some]

/-- What `n` pulls come to. Only those that the limit lets through reach the source; they return
what it tells, and its occurrences are counted. -/
structure Follows (t : Truncated) (xs : List Moment) (failure : Option OccurrenceError) (n : ℕ) :
    Prop where
  results : t.results n = heard xs failure (t.reach n) n
  count : (t.later n).count = t.count + (xs.take (t.reach n)).length
  source : (t.later n).source = t.source.later (t.reach n)

theorem follows (h : t.source.Streams xs failure) (n : ℕ) : t.Follows xs failure n := by
  induction n generalizing t xs failure with
  | zero =>
    exact ⟨by rw [reach_zero, heard_zero]; rfl, by rw [reach_zero]; rfl, by rw [reach_zero]; rfl⟩
  | succ n ih =>
    rcases pull_cases h with ⟨hpull, hreach⟩ | ⟨m, ys, rfl, hrest, hpull, hreach⟩ |
      ⟨rfl, hfinished, hpull, hreach⟩
    · -- at the limit the stream stays as it is
      obtain ⟨hresults, hcount, hsource⟩ := ih h
      rw [hreach] at hresults hcount hsource
      constructor
      · rw [results, hpull, hresults, hreach, heard_zero, heard_zero, List.replicate_succ]
      · rw [later_succ, hpull, hcount, hreach]
      · rw [later_succ, hpull, hsource, hreach]
    · obtain ⟨hresults, hcount, hsource⟩ :=
        ih (t := { t with source := t.source.pull.1, count := t.count + 1 }) hrest
      constructor
      · rw [results, hpull, hresults, hreach, heard_cons]
      · rw [later_succ, hpull, hcount, hreach, List.take_succ_cons, List.length_cons]
        exact Nat.succ_add_eq_add_succ _ _
      · rw [later_succ, hpull, hsource, hreach, Occurrences.later_succ]
    · -- nothing is left of the source, so what follows is a stream that ends at once
      obtain ⟨hresults, hcount, hsource⟩ :=
        ih (t := { t with source := .finished }) (.ends rfl)
      obtain ⟨k, hk⟩ := Nat.exists_eq_succ_of_ne_zero (hreach n).ne'
      constructor
      · rw [results, hpull, hresults, heard_nil_none, heard_nil (hreach n)]
      · rw [later_succ, hpull, hcount, List.take_nil, List.take_nil]
      · rw [later_succ, hpull, hsource, hk, Occurrences.later_succ, hfinished]
        exact (later_finished _).trans (later_finished _).symm

def given (results : List (Except OccurrenceError (Option Moment))) : List Moment :=
  results.filterMap fun result => result.toOption.join

theorem given_eq_nil {results : List (Except OccurrenceError (Option Moment))}
    (h : ∀ result ∈ results, ∀ t, result ≠ .ok (some t)) : given results = [] := by
  apply List.filterMap_eq_nil_iff.mpr
  intro result hresult
  match result with
  | .error cause => rfl
  | .ok none => rfl
  | .ok (some t) => exact absurd rfl (h _ hresult t)

theorem given_heard (k n : ℕ) : given (heard xs failure k n) = xs.take k := by
  have hgiven : given ((xs.take k).map fun t => .ok (some t)) = xs.take k := by
    unfold given
    rw [List.filterMap_map]
    exact List.filterMap_some
  have hfailure (j : ℕ) : given ((failure.toList.map .error).take j) = [] := by
    apply given_eq_nil
    intro result hresult t
    obtain ⟨cause, _, rfl⟩ := List.mem_map.mp (List.mem_of_mem_take hresult)
    exact fun heq => nomatch heq
  have hnothing (j : ℕ) : given (List.replicate j (.ok none)) = [] := by
    apply given_eq_nil
    intro result hresult t
    rw [List.eq_of_mem_replicate hresult]
    exact fun heq => nomatch heq
  unfold heard told
  rw [List.take_append, ← List.map_take]
  unfold given at *
  rw [List.filterMap_append, List.filterMap_append, hgiven, hfailure, hnothing, List.append_nil,
    List.append_nil]

/-- Collecting all results gives the occurrences, as many as get through, or the failure of a
source that gives fewer. -/
theorem collect_eq (h : t.source.Streams xs failure) (n : ℕ) : t.collect n =
    if xs.length < t.reach n then failure.elim (.ok xs) .error else .ok (xs.take (t.reach n)) := by
  induction n generalizing t xs failure with
  | zero =>
    rw [reach_zero]
    rfl
  | succ n ih =>
    rw [collect]
    rcases pull_cases h with ⟨hpull, hreach⟩ | ⟨m, ys, rfl, hrest, hpull, hreach⟩ |
      ⟨rfl, hfinished, hpull, hreach⟩
    · rw [hpull, hreach]
      rfl
    · rw [hpull, hreach]
      have hlater := ih (t := { t with source := t.source.pull.1, count := t.count + 1 }) hrest
      simp only [hlater, List.length_cons, Nat.add_lt_add_iff_right]
      split
      · cases failure with
        | none => rfl
        | some cause => rfl
      · rfl
    · have hpos : ([] : List Moment).length < t.reach (n + 1) := hreach n
      rw [hpull, if_pos hpos]
      cases failure with
      | none => rfl
      | some cause => rfl

end Truncated

namespace Entry

open Occurrences

variable {e : Entry} {settings : Settings} {start : Moment} {inclusive : Bool}

theorem truncated_eq_ok (limit : Option ℕ) :
    e.truncated start (limit.map Nat.cast) inclusive settings =
      .ok { source := e.occurrences start inclusive settings, limit } := by
  unfold truncated Truncated.make
  cases limit with
  | none => rfl
  | some n =>
    have hnonneg : ¬ (n : ℤ) < 0 := by omega
    simp only [Option.map_some, if_neg hnonneg, Int.toNat_natCast]

/-- Taking at most `n` occurrences from a stream, with any number of pulls from `n` on. -/
theorem collect_truncated_eq {xs : List Moment} {failure : Option OccurrenceError}
    (h : (e.occurrences start inclusive settings).Streams xs failure) {n m : ℕ} (hm : n ≤ m) :
    (e.truncated start (some n) inclusive settings >>= Truncated.collect m) =
      if xs.length < n then failure.elim (.ok xs) .error else .ok (xs.take n) := by
  have hmake : e.truncated start (some n) inclusive settings =
      .ok { source := e.occurrences start inclusive settings, limit := some n } :=
    truncated_eq_ok (some n)
  have hreach : Truncated.reach
      { source := e.occurrences start inclusive settings, limit := some n } m = n :=
    min_eq_right hm
  have hcollect := Truncated.collect_eq
    (t := { source := e.occurrences start inclusive settings, limit := some n }) h m
  rw [hreach] at hcollect
  rw [hmake]
  exact hcollect

/-- A stream with a limit is the beginning of the stream of all occurrences. Its pulls return what
that stream tells until the limit is reached, and then nothing; it counts what it gives, and at the
limit it leaves its source alone. The first `n` occurrences are those of the stream, which fails
them only if it fails before the last of them. -/
theorem truncated_follows {line : String} {e : Entry} (h : read line = .ok e)
    (settings : Settings) (start : Moment) (inclusive : Bool) :
    ∃ xs failure, (e.occurrences start inclusive settings).Streams xs failure ∧
      (∀ limit : Option ℕ, ∃ t,
        e.truncated start (limit.map Nat.cast) inclusive settings = .ok t ∧
        ∀ n, t.results n = heard xs failure (limit.elim n (min n)) n ∧
          (t.later n).count = (Truncated.given (t.results n)).length ∧
          (∀ l ∈ limit, (t.later n).count ≤ l) ∧
          (t.later n).source =
            (e.occurrences start inclusive settings).later (limit.elim n (min n))) ∧
      ∀ n : ℕ,
        e.nextN n start inclusive settings =
          (if xs.length < n then failure.elim (.ok xs) .error else .ok (xs.take n)) ∧
        ∀ m ≥ n, (e.truncated start (some n) inclusive settings >>= Truncated.collect m) =
          e.nextN n start inclusive settings := by
  have he := read_withinDomains h
  obtain ⟨xs, failure, hstreams⟩ := exists_streams he settings start inclusive
  refine ⟨xs, failure, hstreams, fun limit => ⟨_, truncated_eq_ok limit, fun n => ?_⟩,
    fun n => ?_⟩
  · obtain ⟨hresults, hcount, hsource⟩ := Truncated.follows
      (t := { source := e.occurrences start inclusive settings, limit }) hstreams n
    have hreach : Truncated.reach { source := e.occurrences start inclusive settings, limit } n =
        limit.elim n (min n) := by
      unfold Truncated.reach
      cases limit <;> rfl
    rw [hreach] at hresults hcount hsource
    rw [Nat.zero_add] at hcount
    refine ⟨hresults, ?_, fun l hl => ?_, hsource⟩
    · rw [hresults, Truncated.given_heard, hcount]
    · obtain rfl := Option.mem_def.mp hl
      rw [hcount, List.length_take]
      simp only [Option.elim_some]
      omega
  · have hnextN : e.nextN n start inclusive settings =
        (e.truncated start (some n) inclusive settings >>= Truncated.collect n) := rfl
    rw [hnextN]
    refine ⟨collect_truncated_eq hstreams le_rfl, fun m hm => ?_⟩
    rw [collect_truncated_eq hstreams hm, collect_truncated_eq hstreams le_rfl]

/-- A stream that fails after its first occurrence, with a limit of two: the second pull fails, and
those after it return nothing. With a limit of one the failure is not met. -/
theorem truncated_follows_failure : ∃ (e : Entry) (settings : Settings) (start t : Moment)
    (cause : OccurrenceError), read "0 0 30,31 1,2 *" = .ok e ∧ settings.maxInvalidDates = 1 ∧
    cause = .search (.unsatisfiable 2 2021 2 31) ∧
    (e.occurrences start true settings).Streams [t] (some cause) ∧
    (∃ limited, e.truncated start (some 2) true settings = .ok limited ∧
      limited.results 4 = [.ok (some t), .error cause, .ok none, .ok none] ∧
      (limited.later 4).count = 1) ∧
    e.nextN 1 start true settings = .ok [t] ∧ e.nextN 2 start true settings = .error cause := by
  let settings : Settings := { maxInvalidDates := 1 }
  let start : Moment :=
    { date := ⟨2021, 1, 30, by decide, by decide⟩, hour := 12, minute := 0,
      hour_lt := by decide, minute_lt := by decide }
  let t : Moment :=
    { date := ⟨2021, 1, 31, by decide, by decide⟩, hour := 0, minute := 0,
      hour_lt := by decide, minute_lt := by decide }
  let cause : OccurrenceError := .search (.unsatisfiable 2 2021 2 31)
  obtain ⟨e, he, hgives, hfails⟩ : ∃ e, read "0 0 30,31 1,2 *" = .ok e ∧
      (e.occurrences start true settings).pull.2 = .ok (some t) ∧
      (e.occurrences start true settings).pull.1.pull.2 = .error cause :=
    exists_ok_of_decide (by decide +kernel)
  have hstreams : (e.occurrences start true settings).Streams [t] (some cause) :=
    .gives hgives (.fails hfails)
  obtain ⟨xs, failure, htold, hlimited, hfirst⟩ := truncated_follows he settings start true
  obtain ⟨rfl, rfl⟩ := hstreams.unique htold
  obtain ⟨limited, hmake, hpulls⟩ := hlimited (some 2)
  obtain ⟨hresults, hcount, _, _⟩ := hpulls 4
  rw [hresults] at hcount
  exact ⟨e, settings, start, t, cause, he, rfl, rfl, hstreams, ⟨limited, hmake, hresults, hcount⟩,
    (hfirst 1).1, (hfirst 2).1⟩

end Entry

end Crontab
