import Crontab.Proofs.Offset
import Crontab.Proofs.Seeking

/-! The log of a session against what its calls do. Every move that a call makes, the first search
of a reset or a step onward, reports how it has ended. A reset that returns adds its own record. -/
namespace Crontab

namespace Event

def announced? : Event → Option SearchError
  | gaveUp attempts year month day => some (.unsatisfiable attempts year month day)
  | _ => none

def isWarning (r : Event) : Bool :=
  r.level == "WARNING"

def isEnd : Event → Bool
  | exhausted _ => true
  | _ => false

def isReset : Event → Bool
  | reset .. => true
  | _ => false

end Event

namespace SearchError

/-- The record that announces a failure; only a search that gives up has one. -/
def record? : SearchError → Option Event
  | unsatisfiable attempts year month day => some (.gaveUp attempts year month day)
  | _ => none

/-- The records that a result calls for. -/
def records {α : Type} : Except SearchError α → List Event
  | .error cause => cause.record?.toList
  | .ok _ => []

variable {α : Type} (result : Except SearchError α)

theorem mem_records {r : Event} (h : r ∈ records result) :
    r.isWarning = true ∧ r.isEnd = false ∧ r.isReset = false := by
  cases result with
  | ok a => contradiction
  | error cause =>
    cases cause <;> cases h
    · exact ⟨rfl, rfl, rfl⟩
    · contradiction

theorem records_filter_isWarning : (records result).filter Event.isWarning = records result :=
  List.filter_eq_self.mpr fun _ h => (mem_records result h).1

theorem records_filter_isEnd : (records result).filter Event.isEnd = [] :=
  List.filter_eq_nil_iff.mpr fun _ h => by simp [(mem_records result h).2.1]

theorem records_filter_isReset : (records result).filter Event.isReset = [] :=
  List.filter_eq_nil_iff.mpr fun _ h => by simp [(mem_records result h).2.2]

end SearchError

namespace Search

/-- A search reports its failure, if that is one to be reported, and nothing else. -/
theorem within_log (settings : Settings) (weekdays failed : ℕ) (o : Odometer) :
    (within settings weekdays .gregorian failed o).log =
      SearchError.records (within settings weekdays .gregorian failed o).outcome := by
  fun_induction within with
  | case4 =>
    rename_i ih
    exact ih
  | _ => rfl

end Search

namespace Session

/-- A search either fails and keeps the current occurrence, or its result becomes current. Its log
is what the result calls for. -/
theorem settle_tells (s : Session) : s.settle.log = SearchError.records s.settle.result ∧
    match s.settle.result with
    | .error _ => s.settle.session.current = s.current
    | .ok c => s.settle.session.current = c := by
  have hlog := Search.within_log s.settings s.weekdays 0 s.odometer
  obtain ⟨o, outcome, log, hsearch⟩ : ∃ o outcome log,
      Search.run s.settings s.weekdays s.odometer = ⟨o, outcome, log⟩ := ⟨_, _, _, rfl⟩
  unfold Search.run at hsearch
  rw [hsearch] at hlog
  unfold settle Search.run
  rw [hsearch]
  cases outcome with
  | error cause => exact ⟨hlog, rfl⟩
  | ok d? =>
    cases d? with
    | none => exact ⟨hlog, rfl⟩
    | some d =>
      dsimp only
      split
      · exact ⟨hlog, rfl⟩
      · exact ⟨hlog, rfl⟩

/-- The sessions on the way of a number of steps, without the last one. -/
def onward (s : Session) (n : ℕ) : List Session :=
  List.iterate (fun s => s.next.session) s n

def leaves (s : Session) : Bool :=
  s.current.isSome && s.next.session.current.isNone

def endRecords (s : Session) : List Event :=
  if s.leaves then [.exhausted s.settings.maxYear] else []

theorem next_log (s : Session) :
    s.next.log = SearchError.records s.next.result ++ s.endRecords := by
  unfold endRecords leaves
  cases hcurrent : s.current with
  | none =>
    rw [next_of_none hcurrent]
    rfl
  | some t =>
    obtain ⟨hlog, hkept⟩ := settle_tells { s with odometer := s.odometer.advance .minute }
    obtain ⟨hsession, hresult⟩ := next_of_some hcurrent
    rw [hsession, hresult, next_eq hcurrent]
    generalize settle _ = step at hlog hkept ⊢
    unfold Step.reportsEnd
    split
    · next hnone =>
      rw [hnone] at hlog hkept
      rw [hnone, hlog, hkept]
      rfl
    · next hother =>
      cases hsettled : step.result with
      | error cause =>
        rw [hsettled] at hlog hkept
        rw [hlog, hkept, hcurrent]
        exact (List.append_nil _).symm
      | ok c =>
        rw [hsettled] at hlog hkept
        rw [hlog, hkept]
        cases c with
        | none => exact absurd hsettled hother
        | some u => rfl

theorem filter_isEnd_next (s : Session) : s.next.log.filter Event.isEnd = s.endRecords := by
  rw [next_log, List.filter_append, SearchError.records_filter_isEnd]
  unfold endRecords
  split <;> rfl

theorem next_current_of_ok {s : Session} {c : Option Moment} (h : s.next.result = .ok c) :
    s.next.session.current = c := by
  cases hcurrent : s.current with
  | none =>
    rw [next_of_none hcurrent] at h ⊢
    exact hcurrent.trans (Except.ok.inj h)
  | some t =>
    have hkept := (settle_tells { s with odometer := s.odometer.advance .minute }).2
    obtain ⟨hsession, hresult⟩ := next_of_some hcurrent
    rw [hresult] at h
    rw [h] at hkept
    rw [hsession, hkept]

end Session

namespace Step

/-- The step warns of what its result calls for, and it has brought its result to the cursor. No
reset is reported yet. -/
structure Warns (step : Step) : Prop where
  warnings : step.log.filter Event.isWarning = SearchError.records step.result
  resets : step.log.filter Event.isReset = []
  current : ∀ c, step.result = .ok c → step.session.current = c

theorem warns_settle (s : Session) : s.settle.Warns := by
  obtain ⟨hlog, hkept⟩ := s.settle_tells
  refine ⟨?_, ?_, fun c hc => ?_⟩
  · rw [hlog, SearchError.records_filter_isWarning]
  · rw [hlog, SearchError.records_filter_isReset]
  · rwa [hc] at hkept

theorem warns_next (s : Session) : s.next.Warns := by
  have hend : s.endRecords.filter Event.isWarning = [] ∧
      s.endRecords.filter Event.isReset = [] := by
    unfold Session.endRecords
    split <;> exact ⟨rfl, rfl⟩
  refine ⟨?_, ?_, fun c => Session.next_current_of_ok⟩
  · rw [s.next_log, List.filter_append, SearchError.records_filter_isWarning, hend.1,
      List.append_nil]
  · rw [s.next_log, List.filter_append, SearchError.records_filter_isReset, hend.2]
    rfl

theorem Warns.further {step : Step} {c : Option Moment} (hc : step.result = .ok c)
    (h : step.Warns) : step.further.Warns := by
  have hnext := warns_next step.session
  have hwarnings := h.warnings
  rw [hc] at hwarnings
  refine ⟨?_, ?_, hnext.current⟩
  · change (step.log ++ step.session.next.log).filter Event.isWarning = _
    rw [List.filter_append, hwarnings, hnext.warnings]
    rfl
  · change (step.log ++ step.session.next.log).filter Event.isReset = _
    rw [List.filter_append, h.resets, hnext.resets]
    rfl

variable {wanted : Moment → Except AlmanacError Bool} {step last : Step} {n : ℕ}

theorem Skips.warns (hskips : step.Skips wanted n last) (h : step.Warns) : last.Warns := by
  induction hskips with
  | ends _ => exact h
  | goesOn ht _ _ ih => exact ih (h.further ht)

/-- Every step of a loop reports its end, if it comes to one. -/
theorem Skips.filter_isEnd (hskips : step.Skips wanted n last) : last.log.filter Event.isEnd =
    step.log.filter Event.isEnd ++ (step.session.onward n).flatMap Session.endRecords := by
  induction hskips with
  | ends _ => exact (List.append_nil _).symm
  | @goesOn step last t n _ _ _ ih =>
    rw [ih]
    change (step.log ++ step.session.next.log).filter Event.isEnd ++ _ = _
    rw [List.filter_append, step.session.filter_isEnd_next, List.append_assoc]
    rfl

theorem filter_reportsReset {p : Event → Bool} (hp : ∀ t c, p (.reset t c) = false) (step : Step)
    (t : Moment) : (step.reportsReset t).log.filter p = step.log.filter p := by
  unfold reportsReset
  split
  · next c _ =>
    have hnone : [Event.reset t c].filter p = [] := List.filter_eq_nil_iff.mpr (by simp [hp])
    rw [List.filter_append, hnone, List.append_nil]
  · rfl

end Step

namespace Session

/-- The sessions that a call steps on from: for a reset those between its first search and the end
of its loop. -/
inductive StepsFrom (s : Session) : Call → List Session → Prop
  | next : StepsFrom s .next [s]
  | reset {t : Moment} {n : ℕ} {last : Step}
    (hskips : (s.aligned t).settle.Skips (Almanac.gregorian.reaches t) n last)
    (hreset : s.reset t = last.reportsReset t) :
    StepsFrom s (.reset t) ((s.aligned t).settle.session.onward n)

@[inherit_doc StepsFrom]
inductive RunStepsFrom : Session → List Call → List Session → Prop
  | nil (s : Session) : RunStepsFrom s [] []
  | cons {s : Session} {c : Call} {calls : List Call} {steps later : List Session}
    (h : s.StepsFrom c steps) (hlater : RunStepsFrom (s.call c).session calls later) :
    RunStepsFrom s (c :: calls) (steps ++ later)

/-- The log of a row of calls, failed ones included. -/
def logOf : Session → List Call → List Event
  | _, [] => []
  | s, c :: calls => (s.call c).log ++ logOf (s.call c).session calls

/-- What the failed ones of a row of calls have raised. -/
def failuresOf : Session → List Call → List SearchError
  | _, [] => []
  | s, c :: calls =>
    match (s.call c).result with
    | .error cause => cause :: failuresOf (s.call c).session calls
    | .ok _ => failuresOf (s.call c).session calls

/-- What the log of a reset tells. The record of the reset is there once and as the last one if it
returns, and not at all if it fails. A first search beyond the last year is no end of the
occurrences. -/
structure TellsReset (s : Session) (t : Moment) : Prop where
  returned : ∀ c, (s.reset t).result = .ok c → (s.reset t).session.current = c ∧
    (s.reset t).log.filter Event.isReset = [.reset t c] ∧
    (s.reset t).log.getLast? = some (.reset t c)
  failed : ∀ cause, (s.reset t).result = .error cause →
    (s.reset t).log.filter Event.isReset = []
  beyond : (s.aligned t).settle.result = .ok none → (s.reset t).log.filter Event.isEnd = []

/-- What the log of a step tells: no reset, and nothing if no occurrence is left. -/
structure TellsNext (s : Session) : Prop where
  resets : s.next.log.filter Event.isReset = []
  finished : s.current = none → s.next.log = []

theorem tellsNext (s : Session) : s.TellsNext := by
  refine ⟨(Step.warns_next s).resets, fun hnone => ?_⟩
  rw [next_of_none hnone]

theorem tellsReset {s : Session} {t : Moment} {n : ℕ} {last : Step}
    (hskips : (s.aligned t).settle.Skips (Almanac.gregorian.reaches t) n last)
    (hreset : s.reset t = last.reportsReset t) : s.TellsReset t := by
  have hwarns := hskips.warns (Step.warns_settle (s.aligned t))
  refine ⟨fun c hc => ?_, fun cause hcause => ?_, fun hbeyond => ?_⟩
  · rw [hreset, Step.result_reportsReset] at hc
    rw [hreset, Step.session_reportsReset, hwarns.current c hc]
    unfold Step.reportsReset
    rw [hc]
    refine ⟨rfl, ?_, List.getLast?_concat⟩
    rw [List.filter_append, hwarns.resets]
    rfl
  · rw [hreset, Step.result_reportsReset] at hcause
    rw [hreset]
    unfold Step.reportsReset
    rw [hcause]
    exact hwarns.resets
  · cases hskips with
    | ends _ =>
      rw [hreset, Step.filter_reportsReset fun _ _ => rfl, (s.aligned t).settle_tells.1,
        SearchError.records_filter_isEnd]
    | goesOn ht =>
      rw [hbeyond] at ht
      cases Except.ok.inj ht

variable {e : Entry} {settings : Settings} {s : Session}

section Calls

variable (he : e.WithinDomains) (hs : s.Serves e settings)
include he hs

theorem exists_skips_reset (t : Moment) : ∃ n last,
    (s.aligned t).settle.Skips (Almanac.gregorian.reaches t) n last ∧
      s.reset t = last.reportsReset t := by
  obtain ⟨n, _, _, hloops⟩ := exists_loops he hs t true
  obtain ⟨last, hlast⟩ := hloops.reset
  exact ⟨n, last, hlast⟩

theorem call_warns (c : Call) :
    (s.call c).log.filter Event.isWarning = SearchError.records (s.call c).result := by
  cases c with
  | next => exact (Step.warns_next s).warnings
  | reset t =>
    obtain ⟨n, last, hskips, hreset⟩ := exists_skips_reset he hs t
    have hwarns := hskips.warns (Step.warns_settle (s.aligned t))
    rw [call, hreset, Step.filter_reportsReset fun _ _ => rfl, Step.result_reportsReset]
    exact hwarns.warnings

theorem onward_serves {s' : Session} {n : ℕ} (h : s' ∈ s.onward n) : s'.Serves e settings := by
  induction n generalizing s with
  | zero => contradiction
  | succ n ih =>
    rcases List.mem_cons.mp h with rfl | h
    · exact hs
    · exact ih (next_serves he hs) h

theorem exists_stepsFrom (c : Call) : ∃ steps, s.StepsFrom c steps ∧
    (∀ s' ∈ steps, s'.settings = settings) ∧
    (s.call c).log.filter Event.isEnd = steps.flatMap endRecords := by
  cases c with
  | next =>
    refine ⟨[s], .next, fun s' hs' => ?_, ?_⟩
    · rw [List.mem_singleton.mp hs', hs.settings_eq]
    · rw [call, filter_isEnd_next]
      exact (List.append_nil _).symm
  | reset t =>
    obtain ⟨n, last, hskips, hreset⟩ := exists_skips_reset he hs t
    have hserves := settle_serves he (hs.aligned t)
    refine ⟨_, .reset hskips hreset, fun s' hs' => (onward_serves he hserves hs').settings_eq, ?_⟩
    rw [call, hreset, Step.filter_reportsReset fun _ _ => rfl, hskips.filter_isEnd,
      (s.aligned t).settle_tells.1, SearchError.records_filter_isEnd]
    rfl

end Calls

/-- Among sessions of the same settings, as many records of the end as steps that lead to it. -/
theorem flatMap_endRecords {steps : List Session} (h : ∀ s' ∈ steps, s'.settings = settings) :
    steps.flatMap endRecords =
      List.replicate (steps.countP leaves) (.exhausted settings.maxYear) := by
  induction steps with
  | nil => rfl
  | cons s steps ih =>
    have hsettings := h s List.mem_cons_self
    rw [List.flatMap_cons, ih fun s' hs' => h s' (List.mem_cons_of_mem s hs'), List.countP_cons,
      endRecords, hsettings]
    split
    · rw [List.replicate_succ]
      rfl
    · rfl

section Runs

variable (he : e.WithinDomains) (hs : Reachable e settings s) (calls : List Call)
include he hs

theorem logOf_warns :
    ((s.logOf calls).filter Event.isWarning).map Event.announced? =
      (s.failuresOf calls).map some := by
  induction calls generalizing s with
  | nil => rfl
  | cons c calls ih =>
    have hserves := hs.serves he
    rw [logOf, failuresOf, List.filter_append, call_warns he hserves, List.map_append,
      ih (hs.call c)]
    cases hresult : (s.call c).result with
    | ok _ => rfl
    | error cause =>
      obtain ⟨attempts, year, month, day, rfl⟩ := call_error_eq he hserves c hresult
      rfl

theorem exists_runStepsFrom : ∃ steps, s.RunStepsFrom calls steps ∧
    (s.logOf calls).filter Event.isEnd =
      List.replicate (steps.countP leaves) (.exhausted settings.maxYear) := by
  induction calls generalizing s with
  | nil => exact ⟨[], .nil s, rfl⟩
  | cons c calls ih =>
    obtain ⟨steps, hsteps, hsettings, hends⟩ := exists_stepsFrom he (hs.serves he) c
    obtain ⟨later, hlater, hrest⟩ := ih (hs.call c)
    refine ⟨steps ++ later, .cons hsteps hlater, ?_⟩
    rw [logOf, List.filter_append, hends, hrest, flatMap_endRecords hsettings,
      List.replicate_append_replicate, List.countP_append]

end Runs

/-- The log of a run of calls. Its warnings are the failures of the run, in their order and with
their attempts and candidates. A record of the end stands for each step, of its own or in the loop
of a reset, from an occurrence to none. What is left to tell is told by each call. -/
theorem log_tells {line : String} {e : Entry} (h : Entry.read line = .ok e) {settings : Settings}
    {s : Session} (hs : Reachable e settings s) (calls : List Call) :
    ((s.logOf calls).filter Event.isWarning).map Event.announced? =
      (s.failuresOf calls).map some ∧
    (∃ steps, s.RunStepsFrom calls steps ∧ (s.logOf calls).filter Event.isEnd =
      List.replicate (steps.countP leaves) (.exhausted settings.maxYear)) ∧
    (∀ t, (s.afterCalls calls).TellsReset t) ∧ (s.afterCalls calls).TellsNext := by
  have he := Entry.read_withinDomains h
  refine ⟨logOf_warns he hs calls, exists_runStepsFrom he hs calls, fun t => ?_, tellsNext _⟩
  have hserves := (hs.afterCalls calls).serves he
  obtain ⟨n, last, hskips, hreset⟩ := exists_skips_reset he hserves t
  exact tellsReset hskips hreset

/-- A reset whose loop gives up, a step to the end, one more without a record, and a reset to the
end of the years: one warning, one record of the end and the report of the second reset. -/
theorem log_tells_of_failed_loop : ∃ (e : Entry) (settings : Settings) (s : Session)
    (first second : Moment) (steps : List Session),
    Entry.read "0 0 30,31 1,2 *" = .ok e ∧ settings.maxInvalidDates = 1 ∧
    Session.start e settings = .ok s ∧
    s.logOf [.reset first, .next, .next, .reset second] =
      [.gaveUp 2 2021 2 31, .exhausted 2021, .reset second none] ∧
    s.failuresOf [.reset first, .next, .next, .reset second] = [.unsatisfiable 2 2021 2 31] ∧
    s.RunStepsFrom [.reset first, .next, .next, .reset second] steps ∧
    steps.countP leaves = 1 := by
  let settings : Settings := { maxInvalidDates := 1, maxYear := 2021 }
  let first : Moment :=
    { date := ⟨2021, 1, 31, by decide, by decide⟩, hour := 0, minute := 0, second := 30,
      hour_lt := by decide, minute_lt := by decide }
  let second : Moment :=
    { date := ⟨2021, 12, 31, by decide, by decide⟩, hour := 0, minute := 0,
      hour_lt := by decide, minute_lt := by decide }
  let calls : List Call := [.reset first, .next, .next, .reset second]
  have hrun : Session.testStart "0 0 30,31 1,2 *" settings (fun s =>
      decide (s.logOf calls = [.gaveUp 2 2021 2 31, .exhausted 2021, .reset second none])) =
        true := by
    decide +kernel
  obtain ⟨e, s, he, hs, htest⟩ := Session.exists_of_testStart hrun
  have hlog := of_decide_eq_true htest
  obtain ⟨hwarns, ⟨steps, hsteps, hends⟩, _⟩ := log_tells he (.start hs) calls
  rw [hlog] at hwarns hends
  refine ⟨e, settings, s, first, second, steps, he, rfl, hs, hlog, ?_, hsteps, ?_⟩
  · have hmap : [SearchError.unsatisfiable 2 2021 2 31].map some = (s.failuresOf calls).map some :=
      hwarns
    exact (List.map_injective_iff.mpr (Option.some_injective _) hmap).symm
  · exact (List.length_replicate.symm.trans (congrArg List.length hends).symm)

end Session

end Crontab
