import Crontab.Proofs.Session

/-! The states that a session can reach, and what each call does there: it is a search from the
least legal reading beyond the present one, or from a reference on. -/
namespace Crontab

namespace Session

/-- The sessions of an entry: a new one, and those that the calls leave behind, failed or not. -/
inductive Reachable (e : Entry) (settings : Settings) : Session → Prop
  | start {s : Session} : start e settings = .ok s → Reachable e settings s
  | reset {s : Session} (t : Moment) :
    Reachable e settings s → Reachable e settings (s.reset t).session
  | next {s : Session} : Reachable e settings s → Reachable e settings s.next.session

variable {e : Entry} {settings : Settings} {s : Session}

theorem Reachable.serves (he : e.WithinDomains) (h : Reachable e settings s) :
    s.Serves e settings := by
  induction h with
  | start hstart =>
    obtain ⟨s', hs', hserves, _⟩ := start_eq_ok he settings
    rw [hs'] at hstart
    exact Except.ok.inj hstart ▸ hserves
  | reset t _ ih => exact reset_serves he ih t
  | next _ ih => exact next_serves he ih

theorem next_search (he : e.WithinDomains) (hs : s.Serves e settings) {t : Moment}
    (hcurrent : s.current = some t) :
    ∃ r, IsLeast {r ∈ e.readings settings | s.odometer.shown < r} r ∧
      s.next.SearchesFrom e settings r :=
  ⟨_, hs.odometer.advance_minute_isLeast, next_searchesFrom he hs hcurrent⟩

end Session

/-- The minute of the moment is an occurrence, but not a wanted one. -/
def Moment.Misses (e : Entry) (settings : Settings) (wanted : Prop) (t : Moment) : Prop :=
  t.reading ∈ e.due settings ∧ t.date.year ≤ settings.maxYear ∧ ¬ wanted

namespace Step

variable {e : Entry} {settings : Settings} {step : Step} {t : Moment} {p q : Prop}

/-- A search from a reading that is due stops there. -/
theorem result_of_due (hsearch : step.SearchesFrom e settings t.reading)
    (hfinds : step.Finds settings {r ∈ e.due settings | r ∈ t.onward p})
    (hdue : t.reading ∈ e.due settings) (hyear : t.date.year ≤ settings.maxYear) (hp : p) :
    ∃ c, step.result = .ok (some c) ∧ c.reading = t.reading := by
  have hmem : t.reading ∈ {r ∈ e.due settings | r ∈ t.onward p} := ⟨hdue, Or.inr ⟨hp, rfl⟩⟩
  obtain ⟨d?, hd?⟩ := hsearch.outcome.of_accepts hdue.1.1 hdue.2
  unfold Finds at hfinds
  split at hfinds
  · next hresult =>
    rw [hresult] at hd?
    contradiction
  · exact absurd hyear (not_le.mpr (hfinds.2 _ hmem))
  · next c hresult =>
    obtain ⟨_, ⟨⟨_, honward⟩, hc⟩, _⟩ := hfinds
    exact ⟨c, hresult, le_antisymm (hc hmem) (Moment.reading_le_of_mem_onward honward)⟩

/-- Skipping an occurrence that is not wanted leaves a search too: one from the reading after it. -/
theorem skipTo_search {wanted : Moment → Except AlmanacError Bool} (he : e.WithinDomains)
    (hs : step.session.Serves e settings) (hcarries : step.Carries t.offset)
    (hfinds : step.Finds settings {r ∈ e.due settings | r ∈ t.onward p})
    (hwanted : Picks wanted t p q) (limit : Moment) (hqp : q → p)
    (hsearch : ∃ r, IsLeast {r ∈ e.readings settings | r ∈ t.onward (¬ t.Misses e settings p)} r ∧
      step.SearchesFrom e settings r) :
    ∃ r, IsLeast {r ∈ e.readings settings | r ∈ t.onward (¬ t.Misses e settings q)} r ∧
      (step.skipTo wanted limit).SearchesFrom e settings r := by
  rcases skipTo_cases he hs hcarries hfinds hwanted limit with
    ⟨hkept, heq⟩ | ⟨c, hc, hholds, hreading, hq, hsession, hresult⟩
  · have hsame : t.Misses e settings p ↔ t.Misses e settings q := by
      refine and_congr_right fun hdue => and_congr_right fun hyear => not_congr ⟨fun hp => ?_, hqp⟩
      by_contra hq
      have hmisses : ¬ t.Misses e settings p := fun h => h.2.2 hp
      obtain ⟨r, hr, hsearch⟩ := hsearch
      have hleast : r = t.reading :=
        (hr.2 ⟨hdue.1, Or.inr ⟨hmisses, rfl⟩⟩).antisymm (Moment.reading_le_of_mem_onward hr.1.2)
      rw [hleast] at hsearch
      obtain ⟨c, hc, hreading⟩ := result_of_due hsearch hfinds hdue hyear hp
      rcases hkept c hc with hlt | ⟨hq', _⟩
      · exact hlt.ne' hreading
      · exact hq hq'
    rwa [heq, ← hsame]
  · have hmisses : t.Misses e settings q := by
      unfold Finds at hfinds
      rw [hc] at hfinds
      obtain ⟨_, ⟨⟨hdue, _⟩, _⟩, hyear⟩ := hfinds
      have hyear' : t.date.year = c.date.year := congrArg (·.date.year) hreading.symm
      exact ⟨hreading ▸ hdue, hyear'.trans_le hyear, hq⟩
    obtain ⟨r, hr, hnext⟩ := Session.next_search he hs hholds.current
    refine ⟨r, ?_, hnext.of_eq hsession hresult⟩
    rw [hholds.shown, hreading] at hr
    simpa only [Moment.onward, hmisses, not_true_eq_false, false_and, or_false,
      Set.mem_ofPred_eq] using hr

end Step

namespace Session

variable {e : Entry} {settings : Settings} {s : Session}

section Calls

variable (he : e.WithinDomains) (hs : s.Serves e settings)
include he hs

/-- A reset searches from the least legal reading on. From within the minute of an occurrence, which
is over by then, it searches from the reading after it. -/
theorem reset_search (t : Moment) :
    ∃ r, IsLeast {r ∈ e.readings settings | r ∈ t.onward (¬ t.Misses e settings t.IsFull)} r ∧
      (s.reset t).SearchesFrom e settings r := by
  obtain ⟨hsession, hresult⟩ := reset_eq s t
  have hmisses : (¬ t.Misses e settings True) = True :=
    eq_true fun h => h.2.2 trivial
  have hsearch : ∃ r,
      IsLeast {r ∈ e.readings settings | r ∈ t.onward (¬ t.Misses e settings True)} r ∧
      (s.aligned t).settle.SearchesFrom e settings r := by
    rw [hmisses]
    exact ⟨_, hs.aligned_isLeast t, settle_searchesFrom he (hs.aligned t)⟩
  obtain ⟨r, hr, hskip⟩ := Step.skipTo_search he (settle_serves he (hs.aligned t))
    (settle_carries (s.aligned t)) (aligned_settle_finds he hs t)
    (Almanac.gregorian_compares.reaches_picks t True) t (fun _ => trivial) hsearch
  exact ⟨r, hr, hskip.of_eq hsession hresult⟩

/-- The first occurrence is searched from the least legal reading on, unless that is an occurrence
which is not wanted. -/
theorem first_search (t : Moment) (inclusive : Bool) :
    ∃ r, IsLeast {r ∈ e.readings settings |
        r ∈ t.onward (¬ t.Misses e settings (inclusive = true ∧ t.IsFull))} r ∧
      (s.first t inclusive).SearchesFrom e settings r :=
  Step.skipTo_search he (reset_serves he hs t) (reset_carries s t) (reset_finds he hs t)
    (Almanac.gregorian_compares.counts_picks t inclusive) t (fun h => h.2) (reset_search he hs t)

end Calls

/-- In every state that a session can reach, each call is one search, and every search from a
candidate date gives up exactly when the budget allows no more rejected dates. -/
theorem reachable_searches {line : String} {e : Entry} (h : Entry.read line = .ok e)
    {settings : Settings} {s : Session} (hs : Reachable e settings s) :
    (∀ o : Odometer, o.Serves e settings →
      e.SearchEnds settings o.shown.date (Search.run settings s.weekdays o).outcome) ∧
    s.odometer.Serves e settings ∧
    (s.current ≠ none → ∃ r, IsLeast {r ∈ e.readings settings | s.odometer.shown < r} r ∧
      s.next.SearchesFrom e settings r) ∧
    ∀ t, ∃ r, IsLeast {r ∈ e.readings settings | r ∈ t.onward (¬ t.Misses e settings t.IsFull)} r ∧
      (s.reset t).SearchesFrom e settings r := by
  have he := Entry.read_withinDomains h
  have hserves := hs.serves he
  refine ⟨fun o ho => ?_, hserves.odometer, fun hne => ?_, reset_search he hserves⟩
  · exact Search.Over.run_ends ⟨he, ho, hserves.weekdays⟩
  · obtain ⟨t, ht⟩ := Option.ne_none_iff_exists'.mp hne
    exact next_search he hserves ht

/-- A session that stands on the 30th of March, with the 30th of February as the next candidate. -/
theorem reachable_searches_thirtieth : ∃ e s, Entry.read "0 0 30 2,3 *" = .ok e ∧
    Reachable e {} s ∧ s.current ≠ none ∧
    ∃ r, IsLeast {r ∈ e.readings {} | s.odometer.shown < r} r ∧ s.next.SearchesFrom e {} r := by
  let t : Moment :=
    { date := ⟨2021, 3, 1, by decide, by decide⟩, hour := 0, minute := 0,
      hour_lt := by decide, minute_lt := by decide }
  have hrun : (match Entry.read "0 0 30 2,3 *" with
      | .ok e => match Session.start e {} with
        | .ok s => (s.reset t).session.current.isSome
        | .error _ => false
      | .error _ => false) = true := by decide +kernel
  obtain ⟨e, he⟩ : ∃ e, Entry.read "0 0 30 2,3 *" = .ok e := ⟨_, rfl⟩
  obtain ⟨s, hs, _⟩ := start_eq_ok (Entry.read_withinDomains he) {}
  rw [he] at hrun
  simp only [hs] at hrun
  have hcurrent := Option.isSome_iff_ne_none.mp hrun
  have hreachable := (Reachable.start hs).reset t
  exact ⟨e, _, he, hreachable, hcurrent, (reachable_searches he hreachable).2.2.1 hcurrent⟩

end Session

end Crontab
