import Crontab.Proofs.Cursor

/-! Stepping on after failures. A step that fails can be made again from where it gave up: the
steps that return give every later occurrence in its order, and nothing after finitely many. -/
namespace Crontab

namespace Entry

variable {e : Entry}

theorem finite_readings (he : e.WithinDomains) (settings : Settings) :
    {r ∈ e.readings settings | r.date.year ≤ settings.maxYear}.Finite := by
  apply (Reading.finite_box settings.minYear settings.maxYear 64).subset
  intro r hr
  obtain ⟨⟨⟨hmin, hmonth, hday⟩, hhour, hminute⟩, hmax⟩ := hr
  exact ⟨⟨hmin, hmax⟩, he.lt_sixtyFour .month hmonth, he.lt_sixtyFour .dayOfMonth hday,
    he.lt_sixtyFour .hour hhour, he.lt_sixtyFour .minute hminute⟩

/-- The occurrences after one of them need no test of the first year. -/
theorem mem_moments_Ioi_iff (he : e.WithinDomains) {settings : Settings} {c t : Moment}
    (hdue : c.reading ∈ e.due settings) :
    t ∈ e.moments settings c.offset (Set.Ioi c.reading) ↔ t.offset = c.offset ∧
      t.date.year ≤ settings.maxYear ∧ e.matchesAt t = .ok true ∧ c < t := by
  have hlt (ht : t.IsFull) : c < t ↔ c.reading < t.reading := by
    rw [Moment.lt_iff_onward ht.1 ht.2, Moment.onward, Set.mem_ofPred_eq]
    simp only [false_and, or_false]
  constructor
  · intro h
    obtain ⟨hoffset, ht, hyear, hmem, hafter⟩ := h
    have hselects := ((reading_mem_due_iff ht).mp hmem).2
    exact ⟨hoffset, hyear, (he.matchesAt_iff t).mpr hselects, (hlt ht).mpr hafter⟩
  · intro h
    obtain ⟨hoffset, hyear, hmatches, hafter⟩ := h
    have hselects := (he.matchesAt_iff t).mp hmatches
    have ht : t.IsFull := ⟨hselects.1, hselects.2.1⟩
    have hreading := (hlt ht).mp hafter
    have hmin : settings.minYear ≤ t.date.year :=
      hdue.1.1.1.trans (Candidate.year_le (Reading.date_le hreading.le))
    exact ⟨hoffset, ht, hyear, (reading_mem_due_iff ht).mpr ⟨hmin, hselects⟩, hreading⟩

end Entry

namespace Session

def after (s : Session) (n : ℕ) : Session :=
  (fun s => s.next.session)^[n] s

/-- What the steps among `n` that do not fail return. -/
def returned (s : Session) : ℕ → List (Option Moment)
  | 0 => []
  | n + 1 =>
    match s.next.result with
    | .ok r => r :: s.next.session.returned n
    | .error _ => s.next.session.returned n

/-- From an occurrence on, the first `N` steps return the items of a list, and those after them
return nothing. Until then the occurrence that was returned last is current. -/
structure RunsThrough (s : Session) (c : Moment) (S : List Moment) (N : ℕ) : Prop where
  current : ∀ n ≤ N, ∃ k, s.returned n = (S.take k).map some ∧
    (s.after n).current = (c :: S.take k).getLast?
  returned : s.returned N = S.map some
  ends : (s.after N).next.result = .ok none
  stays : ∀ n > N, (s.after n).next = ⟨s.after n, .ok none, []⟩

variable {s : Session} {c : Moment} {S : List Moment} {N : ℕ}

theorem after_succ (s : Session) (n : ℕ) : s.after (n + 1) = s.next.session.after n :=
  Function.iterate_succ_apply _ n s

theorem after_succ' (s : Session) (n : ℕ) : s.after (n + 1) = (s.after n).next.session :=
  Function.iterate_succ_apply' _ n s

theorem returned_succ_of_ok {r : Option Moment} (h : s.next.result = .ok r) (n : ℕ) :
    s.returned (n + 1) = r :: s.next.session.returned n := by
  rw [Session.returned, h]

theorem returned_succ_of_error {cause : SearchError} (h : s.next.result = .error cause) (n : ℕ) :
    s.returned (n + 1) = s.next.session.returned n := by
  rw [Session.returned, h]

namespace RunsThrough

theorem of_none (hcurrent : s.current = some c) (hresult : s.next.result = .ok none)
    (hnone : s.next.session.current = none) : s.RunsThrough c [] 0 := by
  have hstays (n : ℕ) : s.after (n + 1) = s.next.session := by
    induction n with
    | zero => rfl
    | succ n ih => rw [after_succ', ih, next_of_none hnone]
  refine ⟨fun n hn => ⟨0, ?_⟩, rfl, hresult, fun n hn => ?_⟩
  · obtain rfl := Nat.le_zero.mp hn
    exact ⟨rfl, hcurrent⟩
  · obtain ⟨n, rfl⟩ := Nat.exists_eq_add_of_lt hn
    rw [Nat.zero_add, hstays]
    exact next_of_none hnone

theorem of_some {u : Moment} (hcurrent : s.current = some c)
    (hresult : s.next.result = .ok (some u)) (h : s.next.session.RunsThrough u S N) :
    s.RunsThrough c (u :: S) (N + 1) := by
  constructor
  · intro n hn
    cases n with
    | zero => exact ⟨0, rfl, hcurrent⟩
    | succ n =>
      obtain ⟨k, hreturned, hlast⟩ := h.current n (Nat.le_of_succ_le_succ hn)
      refine ⟨k + 1, ?_, ?_⟩
      · rw [returned_succ_of_ok hresult, hreturned]
        rfl
      · rw [after_succ, hlast, List.take_succ_cons, List.getLast?_cons_cons]
  · rw [returned_succ_of_ok hresult, h.returned]
    rfl
  · rw [after_succ]
    exact h.ends
  · intro n hn
    obtain ⟨n, rfl⟩ := Nat.exists_eq_succ_of_ne_zero (Nat.ne_of_gt (Nat.zero_lt_of_lt hn))
    rw [after_succ]
    exact h.stays n (Nat.lt_of_succ_lt_succ hn)

theorem of_error {cause : SearchError} (hcurrent : s.current = some c)
    (hresult : s.next.result = .error cause) (h : s.next.session.RunsThrough c S N) :
    s.RunsThrough c S (N + 1) := by
  constructor
  · intro n hn
    cases n with
    | zero => exact ⟨0, rfl, hcurrent⟩
    | succ n =>
      rw [returned_succ_of_error hresult, after_succ]
      exact h.current n (Nat.le_of_succ_le_succ hn)
  · rw [returned_succ_of_error hresult]
    exact h.returned
  · rw [after_succ]
    exact h.ends
  · intro n hn
    obtain ⟨n, rfl⟩ := Nat.exists_eq_succ_of_ne_zero (Nat.ne_of_gt (Nat.zero_lt_of_lt hn))
    rw [after_succ]
    exact h.stays n (Nat.lt_of_succ_lt_succ hn)

end RunsThrough

variable {e : Entry} {settings : Settings}

/-- The wheels may have moved on from the current occurrence, but not past another one. -/
structure Awaits (e : Entry) (settings : Settings) (s : Session) (c : Moment) : Prop where
  serves : s.Serves e settings
  current : s.current = some c
  offset : c.offset = s.offset
  due_iff : ∀ r ∈ e.due settings, c.reading < r ↔ s.odometer.shown < r

/-- The readings that the wheels can still show before the last year is over. -/
def left (e : Entry) (settings : Settings) (s : Session) : Set Reading :=
  {r ∈ e.readings settings | r.date.year ≤ settings.maxYear} ∩ Set.Ioi s.odometer.shown

theorem ncard_left_lt (he : e.WithinDomains) {s' : Session} (hs' : s'.Serves e settings)
    (hlt : s.odometer.shown < s'.odometer.shown)
    (hyear : s'.odometer.shown.date.year ≤ settings.maxYear) :
    (s'.left e settings).ncard < (s.left e settings).ncard := by
  have hfinite : (s.left e settings).Finite := (e.finite_readings he settings).inter_of_left _
  apply Set.ncard_lt_ncard _ hfinite
  constructor
  · exact Set.inter_subset_inter_right _ (Set.Ioi_subset_Ioi hlt.le)
  · intro hsubset
    have hmem := hsubset ⟨⟨hs'.odometer.shown_mem, hyear⟩, hlt⟩
    exact lt_irrefl _ (Set.mem_Ioi.mp hmem.2)

namespace Awaits

theorem of_holds (hs : s.Serves e settings) (h : s.Holds c) : s.Awaits e settings c :=
  ⟨hs, h.current, h.offset, fun _ _ => by rw [h.shown]⟩

variable (he : e.WithinDomains) (h : s.Awaits e settings c)
include he h

theorem next_finds : s.next.Finds settings {r ∈ e.due settings | c.reading < r} := by
  obtain ⟨hsession, hresult⟩ := next_of_some h.current
  have hset : {r ∈ e.due settings | c.reading < r} =
      {r ∈ e.due settings | r ∈ Set.Ioi s.odometer.shown} :=
    Set.ext fun r => and_congr_right (h.due_iff r)
  have hleast := h.serves.odometer.advance_minute_isLeast
  rw [hset]
  apply Step.Finds.of_eq _ hsession hresult
  exact settle_finds he (h.serves.advance .minute) (isUpperSet_Ioi _) hleast

/-- A step that fails leaves the session waiting for the same occurrences, further on. -/
theorem next_of_error {cause : SearchError} (hresult : s.next.result = .error cause) :
    s.next.session.Awaits e settings c ∧
      (s.next.session.left e settings).ncard < (s.left e settings).ncard := by
  obtain ⟨hsession, hsettled⟩ := next_of_some h.current
  have hserves := next_serves he h.serves
  have hgives := settle_givesUp he (h.serves.advance .minute) (hsettled.symm.trans hresult)
  rw [← hsession] at hgives
  have hleast := h.serves.odometer.advance_minute_isLeast
  have hlt : s.odometer.shown < s.next.session.odometer.shown := hleast.1.2.trans_le hgives.le
  refine ⟨⟨hserves, hgives.current.trans h.current, h.offset.trans hgives.offset.symm, ?_⟩,
    ncard_left_lt he hserves hlt hgives.le_maxYear⟩
  intro r hr
  rw [h.due_iff r hr]
  constructor
  · exact fun hafter => hgives.passed r hr (hleast.2 ⟨hr.1, hafter⟩)
  · exact fun hafter => hlt.trans hafter

theorem next_of_some {u : Moment} (hresult : s.next.result = .ok (some u)) :
    s.next.session.Awaits e settings u ∧
      (s.next.session.left e settings).ncard < (s.left e settings).ncard := by
  have hserves := next_serves he h.serves
  have hfinds := h.next_finds he
  unfold Step.Finds at hfinds
  rw [hresult] at hfinds
  obtain ⟨hholds, ⟨⟨hdue, hafter⟩, _⟩, hyear⟩ := hfinds
  have hlt : s.odometer.shown < s.next.session.odometer.shown := by
    rw [hholds.shown]
    exact (h.due_iff _ hdue).mp hafter
  have hyear' : s.next.session.odometer.shown.date.year ≤ settings.maxYear := by
    rw [hholds.shown]
    exact hyear
  exact ⟨of_holds hserves hholds, ncard_left_lt he hserves hlt hyear'⟩

/-- Every step uses up a reading, so the steps come to the end of the list. -/
theorem exists_runsThrough (hS : e.Lists settings s.offset (Set.Ioi c.reading) S) :
    ∃ N, s.RunsThrough c S N := by
  induction hn : (s.left e settings).ncard using Nat.strong_induction_on generalizing s c S with
  | h n ih =>
    -- a step that fails leaves the whole list to be returned, any other takes its head
    cases hresult : s.next.result with
    | error cause =>
      obtain ⟨hawaits, hlt⟩ := h.next_of_error he hresult
      have hoffset := s.next_carries.session
      obtain ⟨N, hN⟩ := ih _ (hn ▸ hlt) hawaits (hoffset ▸ hS) rfl
      exact ⟨N + 1, hN.of_error h.current hresult⟩
    | ok r =>
      have hfinds := h.next_finds he
      have hoffset := s.next_carries.session
      obtain ⟨hhead, htail⟩ := hS.of_finds (isUpperSet_Ioi _) hfinds hoffset hresult
      cases r with
      | none =>
        obtain rfl := List.head?_eq_none_iff.mp hhead.symm
        have hnone := (next_searchesFrom he h.serves h.current).current none hresult
        exact ⟨0, .of_none h.current hresult hnone⟩
      | some u =>
        obtain ⟨S, rfl⟩ : ∃ S', S = u :: S' := ⟨S.tail, List.eq_cons_of_mem_head? hhead.symm⟩
        obtain ⟨hawaits, hlt⟩ := h.next_of_some he hresult
        obtain ⟨N, hN⟩ := ih _ (hn ▸ hlt) hawaits (hoffset ▸ htail u rfl) rfl
        exact ⟨N + 1, hN.of_some h.current hresult⟩

end Awaits

theorem after_serves (he : e.WithinDomains) (hs : s.Serves e settings) (n : ℕ) :
    (s.after n).Serves e settings := by
  induction n with
  | zero => exact hs
  | succ n ih =>
    rw [after_succ']
    exact next_serves he ih

/-- After a reset that has found an occurrence, steps that are made again when they fail return
every later occurrence, each one once and in its order, and then nothing. -/
theorem reset_runsThrough {line : String} {e : Entry} (h : Entry.read line = .ok e)
    {settings : Settings} {s : Session} (hs : Reachable e settings s) {t c : Moment}
    (hc : (s.reset t).result = .ok (some c)) :
    ∃ (S : List Moment) (N : ℕ), S.Pairwise (· < ·) ∧
      (∀ u, u ∈ S ↔ u.offset = c.offset ∧ u.date.year ≤ settings.maxYear ∧
        e.matchesAt u = .ok true ∧ c < u) ∧
      (s.reset t).session.RunsThrough c S N ∧
      ∀ n cause, ((s.reset t).session.after n).next.result = .error cause →
        ∃ attempts year month day, cause = .unsatisfiable attempts year month day := by
  have he := Entry.read_withinDomains h
  have hserves := reset_serves he (hs.serves he) t
  have hfinds := reset_finds he (hs.serves he) t
  unfold Step.Finds at hfinds
  rw [hc] at hfinds
  obtain ⟨hholds, ⟨⟨hdue, _⟩, _⟩, _⟩ := hfinds
  obtain ⟨S, hS⟩ := e.exists_lists settings c.offset (Set.Ioi c.reading)
  have hawaits := Awaits.of_holds hserves hholds
  obtain ⟨N, hN⟩ := hawaits.exists_runsThrough he (hholds.offset ▸ hS)
  refine ⟨S, N, hS.ascending.imp fun hlt => Moment.lt_iff.mpr (Or.inl hlt), fun u => ?_, hN,
    fun n _ => call_error_eq he (after_serves he hserves n) .next⟩
  exact (hS.mem_iff u).trans (Entry.mem_moments_Ioi_iff he hdue)

/-- With a budget of one the second step fails, between the Januaries of two years. -/
theorem reset_runsThrough_januaries : ∃ (e : Entry) (settings : Settings) (s : Session)
    (t c : Moment), Entry.read "0 0 30,31 1,2 *" = .ok e ∧ settings.maxInvalidDates = 1 ∧
    Reachable e settings s ∧ (s.reset t).result = .ok (some c) ∧
    ((s.reset t).session.after 1).next.result = .error (.unsatisfiable 2 2021 2 31) ∧
    ∃ (S : List Moment) (N : ℕ), S.Pairwise (· < ·) ∧
      (∀ u, u ∈ S ↔ u.offset = c.offset ∧ u.date.year ≤ settings.maxYear ∧
        e.matchesAt u = .ok true ∧ c < u) ∧
      (s.reset t).session.RunsThrough c S N := by
  let settings : Settings := { maxInvalidDates := 1 }
  let t : Moment :=
    { date := ⟨2021, 1, 1, by decide, by decide⟩, hour := 12, minute := 0,
      hour_lt := by decide, minute_lt := by decide }
  let c : Moment :=
    { date := ⟨2021, 1, 30, by decide, by decide⟩, hour := 0, minute := 0,
      hour_lt := by decide, minute_lt := by decide }
  have hrun : testStart "0 0 30,31 1,2 *" settings (fun s =>
      decide ((s.reset t).result = .ok (some c)) &&
        decide (((s.reset t).session.after 1).next.result =
          .error (.unsatisfiable 2 2021 2 31))) = true := by
    decide +kernel
  obtain ⟨e, s, he, hs, htest⟩ := exists_of_testStart hrun
  simp only [Bool.and_eq_true, decide_eq_true_eq] at htest
  obtain ⟨hc, hfails⟩ := htest
  obtain ⟨S, N, hascending, hmem, hruns, _⟩ := reset_runsThrough he (.start hs) hc
  exact ⟨e, settings, s, t, c, he, rfl, .start hs, hc, hfails, S, N, hascending, hmem, hruns⟩

end Session

end Crontab
