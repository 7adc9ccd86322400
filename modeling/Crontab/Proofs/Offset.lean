import Crontab.Proofs.Truncated

/-! Offsets are carried and not looked at. Another offset of the reference gives every moment of a
run that offset and changes nothing else, and an occurrence has the offset of the last reset. -/
namespace Crontab

/-- The same date and time with another offset, or with none. -/
def Moment.withOffset (offset : Option ℤ) (t : Moment) : Moment :=
  { t with offset }

def Event.withOffset (offset : Option ℤ) : Event → Event
  | .reset t c => .reset (t.withOffset offset) (c.map (Moment.withOffset offset))
  | event => event

/-- The session with another offset for what it holds and for what it will find. -/
def Session.withOffset (offset : Option ℤ) (s : Session) : Session :=
  { s with offset, current := s.current.map (Moment.withOffset offset) }

def Step.withOffset (offset : Option ℤ) (step : Step) : Step where
  session := step.session.withOffset offset
  result := step.result.map (Option.map (Moment.withOffset offset))
  log := step.log.map (Event.withOffset offset)

def Occurrences.withOffset (offset : Option ℤ) : Occurrences → Occurrences
  | .unopened e start inclusive settings =>
    .unopened e (start.withOffset offset) inclusive settings
  | .opened s start inclusive => .opened (s.withOffset offset) (start.withOffset offset) inclusive
  | .finished => .finished

section WithOffset

variable (offset : Option ℤ)

theorem Almanac.gregorian_moment_withOffset (year : ℤ) (month day hour minute : ℕ)
    (before : Option ℤ) : gregorian.moment year month day hour minute offset =
      (gregorian.moment year month day hour minute before).map (Moment.withOffset offset) := by
  show (do let d ← gregorianDate year month day; _) = Except.map _ (do let d ← _; _)
  cases gregorianDate year month day with
  | error cause => rfl
  | ok d =>
    show (Moment.onMinute d hour minute offset).mapError _ =
      ((Moment.onMinute d hour minute before).mapError _).map _
    unfold Moment.onMinute
    split_ifs <;> rfl

/-- The reports of a search hold no moment. -/
theorem Search.log_withOffset (settings : Settings) (weekdays failed : ℕ) (o : Odometer) :
    (within settings weekdays .gregorian failed o).log.map (Event.withOffset offset) =
      (within settings weekdays .gregorian failed o).log := by
  fun_induction within with
  | case4 =>
    rename_i ih
    exact ih
  | _ => rfl

namespace Step

variable (step : Step)

/-- Without moments among its reports a step is changed in its session and its result only. -/
theorem withOffset_mk {log : List Event} (hlog : log.map (Event.withOffset offset) = log)
    (s : Session) (result : Except SearchError (Option Moment)) :
    (Step.mk s result log).withOffset offset =
      ⟨s.withOffset offset, result.map (Option.map (Moment.withOffset offset)), log⟩ := by
  unfold withOffset
  rw [hlog]

theorem reportsEnd_withOffset (lastYear : ℤ) : (step.withOffset offset).reportsEnd lastYear =
    (step.reportsEnd lastYear).withOffset offset := by
  obtain ⟨s, result, log⟩ := step
  unfold withOffset reportsEnd
  cases result with
  | error cause => rfl
  | ok c =>
    cases c with
    | none =>
      dsimp only
      rw [List.map_append]
      rfl
    | some t => rfl

theorem reportsReset_withOffset (t : Moment) :
    (step.withOffset offset).reportsReset (t.withOffset offset) =
      (step.reportsReset t).withOffset offset := by
  obtain ⟨s, result, log⟩ := step
  unfold withOffset reportsReset
  cases result with
  | error cause => rfl
  | ok c =>
    dsimp only
    rw [List.map_append]
    rfl

end Step

theorem Session.settle_withOffset (s : Session) :
    (s.withOffset offset).settle = s.settle.withOffset offset := by
  have hlog : (Search.run s.settings s.weekdays s.odometer).log.map (Event.withOffset offset) =
      (Search.run s.settings s.weekdays s.odometer).log := Search.log_withOffset ..
  unfold settle
  dsimp only [withOffset]
  generalize Search.run s.settings s.weekdays s.odometer = search at hlog ⊢
  have hstep := Step.withOffset_mk offset hlog
  cases search.outcome with
  | error cause =>
    rw [hstep]
    rfl
  | ok d? =>
    cases d? with
    | none =>
      rw [hstep]
      rfl
    | some d =>
      have hmoment := Almanac.gregorian_moment_withOffset offset search.odometer.year.value
        search.odometer.month.value search.odometer.day.value search.odometer.hour.value
        search.odometer.minute.value s.offset
      dsimp only
      rw [hmoment]
      cases Almanac.gregorian.moment search.odometer.year.value search.odometer.month.value
          search.odometer.day.value search.odometer.hour.value search.odometer.minute.value
          s.offset with
      | error cause =>
        dsimp only [Except.map]
        rw [hstep]
        rfl
      | ok t =>
        dsimp only [Except.map]
        rw [hstep]
        rfl

theorem Session.next_withOffset (s : Session) :
    (s.withOffset offset).next = s.next.withOffset offset := by
  cases hcurrent : s.current with
  | none =>
    have hcurrent' : (s.withOffset offset).current = none := congrArg (Option.map _) hcurrent
    rw [next_of_none hcurrent, next_of_none hcurrent']
    rfl
  | some t =>
    have hcurrent' : (s.withOffset offset).current = some (t.withOffset offset) :=
      congrArg (Option.map _) hcurrent
    let turned : Session := { s with odometer := s.odometer.advance .minute }
    have hsettle : (turned.withOffset offset).settle = turned.settle.withOffset offset :=
      turned.settle_withOffset offset
    have hnext : (s.withOffset offset).next =
        (turned.withOffset offset).settle.reportsEnd s.settings.maxYear := next_eq hcurrent'
    rw [hnext, hsettle, next_eq hcurrent]
    exact turned.settle.reportsEnd_withOffset offset s.settings.maxYear

namespace Step

variable {wanted wanted' : Moment → Except AlmanacError Bool} (step : Step)

theorem further_withOffset : (step.withOffset offset).further = step.further.withOffset offset := by
  have hnext : (step.withOffset offset).session.next = step.session.next.withOffset offset :=
    step.session.next_withOffset offset
  unfold further
  rw [hnext]
  unfold withOffset
  dsimp only
  rw [List.map_append]

theorem result_withOffset : (step.withOffset offset).result =
    step.result.map (Option.map (Moment.withOffset offset)) := rfl

variable {before : Option ℤ}
  (hwanted : ∀ t : Moment, t.offset = before → wanted' (t.withOffset offset) = wanted t)
include hwanted

/-- Only occurrences with the offset that the step carries come before the test. -/
theorem skip_withOffset (fuel : ℕ) {step : Step} (hcarries : step.Carries before) :
    skip wanted' .gregorian fuel (step.withOffset offset) =
      (skip wanted .gregorian fuel step).withOffset offset := by
  induction fuel generalizing step with
  | zero => rfl
  | succ fuel ih =>
    rw [skip, skip, result_withOffset]
    cases hresult : step.result with
    | error cause => rfl
    | ok c =>
      cases c with
      | none => rfl
      | some t =>
        have hsame := hwanted t (hcarries.result t hresult)
        have hfurther := ih hcarries.further
        rw [← further_withOffset] at hfurther
        simp only [Except.map, Option.map]
        rw [hsame]
        cases wanted t with
        | error cause => rfl
        | ok b =>
          cases b with
          | true => rfl
          | false => exact hfurther

theorem skipTo_withOffset (limit : Moment) {step : Step} (hcarries : step.Carries before) :
    (step.withOffset offset).skipTo wanted' (limit.withOffset offset) =
      (step.skipTo wanted limit).withOffset offset := by
  unfold skipTo
  rw [result_withOffset]
  cases step.result with
  | error cause => rfl
  | ok c =>
    cases c with
    | none => rfl
    | some t => exact skip_withOffset offset hwanted (t.minutesUpTo limit) hcarries

end Step

namespace Almanac

variable {c t : Moment} (h : c.offset = t.offset)
include h

/-- The answer is the same with another offset, as long as both moments have it. -/
theorem gregorian_reaches_withOffset :
    gregorian.reaches (t.withOffset offset) (c.withOffset offset) = gregorian.reaches t c := by
  have hsame : (c.withOffset offset).offset = (t.withOffset offset).offset := rfl
  rw [gregorian_compares.reaches_eq hsame, gregorian_compares.reaches_eq h]
  rfl

theorem gregorian_counts_withOffset (inclusive : Bool) :
    gregorian.counts (t.withOffset offset) inclusive (c.withOffset offset) =
      gregorian.counts t inclusive c := by
  have hsame : (c.withOffset offset).offset = (t.withOffset offset).offset := rfl
  rw [gregorian_compares.counts_eq inclusive hsame, gregorian_compares.counts_eq inclusive h]
  rfl

end Almanac

namespace Session

variable (s : Session) (t : Moment) (inclusive : Bool)

theorem reset_withOffset :
    (s.withOffset offset).reset (t.withOffset offset) = (s.reset t).withOffset offset := by
  have haligned : (s.withOffset offset).aligned (t.withOffset offset) =
      (s.aligned t).withOffset offset := rfl
  have hskip := Step.skipTo_withOffset offset
    (fun _ => Almanac.gregorian_reaches_withOffset offset) t (settle_carries (s.aligned t))
  rw [reset_eq_reportsReset, haligned, settle_withOffset, hskip, Step.reportsReset_withOffset,
    reset_eq_reportsReset]

theorem first_withOffset : (s.withOffset offset).first (t.withOffset offset) inclusive =
    (s.first t inclusive).withOffset offset := by
  unfold first
  rw [reset_withOffset]
  exact Step.skipTo_withOffset offset
    (fun _ h => Almanac.gregorian_counts_withOffset offset h inclusive) t (reset_carries s t)

end Session

theorem Session.start_current {e : Entry} {settings : Settings} {s : Session}
    (h : start e settings = .ok s) : s.current = none := by
  unfold start at h
  simp only [bind_eq_ok] at h
  obtain ⟨_, _, _, _, _, _, _, _, weekdays, _, h⟩ := h
  split at h
  · contradiction
  · cases h
    rfl

/-- A new session holds nothing, and a reset puts its own offset in place of what is there. -/
theorem Session.first_of_start {e : Entry} {settings : Settings} {s : Session}
    (h : start e settings = .ok s) (t : Moment) (inclusive : Bool) :
    s.first (t.withOffset offset) inclusive = (s.first t inclusive).withOffset offset := by
  have hsession : s.withOffset offset = { s with offset } := by
    unfold withOffset
    rw [start_current h]
    rfl
  have hfirst := s.first_withOffset offset t inclusive
  rw [hsession] at hfirst
  exact hfirst

theorem Entry.nextFrom_withOffset (e : Entry) (start : Moment) (inclusive : Bool)
    (settings : Settings) : e.nextFrom (start.withOffset offset) inclusive settings =
      (e.nextFrom start inclusive settings).map (Option.map (Moment.withOffset offset)) := by
  unfold nextFrom
  cases hstart : Session.start e settings with
  | error cause => rfl
  | ok s =>
    have hfirst := Session.first_of_start offset hstart start inclusive
    dsimp only
    rw [hfirst]
    unfold Step.withOffset
    cases (s.first start inclusive).result <;> rfl

namespace Occurrences

variable (stream : Occurrences)

theorem after_withOffset (step : Step) (start : Moment) (inclusive : Bool) :
    after (step.withOffset offset) (start.withOffset offset) inclusive =
      ((after step start inclusive).1.withOffset offset,
        (after step start inclusive).2.map (Option.map (Moment.withOffset offset))) := by
  obtain ⟨s, result, log⟩ := step
  unfold after Step.withOffset
  cases result with
  | error cause => rfl
  | ok c => cases c <;> rfl

/-- The session of the stream has the offset of the start. -/
def KeepsOffset : Occurrences → Prop
  | .opened s start _ => s.offset = start.offset
  | _ => True

theorem after_keepsOffset {step : Step} {start : Moment} (hcarries : step.Carries start.offset)
    (inclusive : Bool) : (after step start inclusive).1.KeepsOffset := by
  unfold after
  split
  · trivial
  · trivial
  · exact hcarries.session

variable {stream}

theorem KeepsOffset.pull (h : stream.KeepsOffset) : stream.pull.1.KeepsOffset := by
  cases stream with
  | unopened e start inclusive settings =>
    unfold Occurrences.pull
    dsimp only
    cases Session.start e settings with
    | error cause => trivial
    | ok s => exact after_keepsOffset (s.first_carries start inclusive) inclusive
  | opened s start inclusive =>
    have hoffset : s.offset = start.offset := h
    have hnext := hoffset ▸ s.next_carries
    have hskip := Step.skipTo_induction (P := fun _ _ => True)
      (fun c hc => ⟨_, Almanac.gregorian_compares.counts_eq inclusive hc⟩)
      (fun _ _ _ => trivial) start hnext trivial
    exact after_keepsOffset hskip.1 inclusive
  | finished => trivial

/-- A pull from the stream with another offset is the same pull with that offset. -/
theorem KeepsOffset.pull_withOffset (h : stream.KeepsOffset) : (stream.withOffset offset).pull =
    (stream.pull.1.withOffset offset,
      stream.pull.2.map (Option.map (Moment.withOffset offset))) := by
  cases stream with
  | unopened e start inclusive settings =>
    unfold withOffset Occurrences.pull
    dsimp only
    cases hstart : Session.start e settings with
    | error cause => rfl
    | ok s =>
      dsimp only
      rw [Session.first_of_start offset hstart]
      exact after_withOffset offset (s.first start inclusive) start inclusive
  | opened s start inclusive =>
    have hoffset : s.offset = start.offset := h
    have hskip := Step.skipTo_withOffset offset
      (fun _ h => Almanac.gregorian_counts_withOffset offset h inclusive) start
      (hoffset ▸ s.next_carries)
    unfold withOffset Occurrences.pull
    dsimp only
    rw [Session.next_withOffset, hskip]
    exact after_withOffset offset _ start inclusive
  | finished => rfl

theorem KeepsOffset.later (h : stream.KeepsOffset) (n : ℕ) : (stream.later n).KeepsOffset := by
  induction n generalizing stream with
  | zero => exact h
  | succ n ih => exact ih h.pull

theorem KeepsOffset.later_withOffset (h : stream.KeepsOffset) (n : ℕ) :
    (stream.withOffset offset).later n = (stream.later n).withOffset offset := by
  induction n generalizing stream with
  | zero => rfl
  | succ n ih =>
    rw [later_succ, later_succ, h.pull_withOffset]
    exact ih h.pull

end Occurrences

end WithOffset

namespace Session

def afterCalls (s : Session) (calls : List Call) : Session :=
  calls.foldl (fun s c => (s.call c).session) s

/-- The reference of the last reset among the calls: only steps have followed it. -/
def LastReset (calls : List Call) (t : Moment) : Prop :=
  ∃ before later, calls = before ++ .reset t :: later ∧ ∀ c ∈ later, c = .next

variable {e : Entry} {settings : Settings} {s : Session}

theorem afterCalls_concat (s : Session) (calls : List Call) (c : Call) :
    s.afterCalls (calls ++ [c]) = ((s.afterCalls calls).call c).session := by
  unfold afterCalls
  rw [List.foldl_append]
  rfl

theorem Reachable.afterCalls (h : Reachable e settings s) (calls : List Call) :
    Reachable e settings (s.afterCalls calls) := by
  induction calls generalizing s with
  | nil => exact h
  | cons c calls ih => exact ih (h.call c)

theorem LastReset.concat_next {calls : List Call} {t : Moment} (h : LastReset calls t) :
    LastReset (calls ++ [.next]) t := by
  obtain ⟨before, later, rfl, hlater⟩ := h
  refine ⟨before, later ++ [.next], by simp, fun c hc => ?_⟩
  rcases List.mem_append.mp hc with hc | hc
  · exact hlater c hc
  · exact List.mem_singleton.mp hc

/-- The session carries the offset of the last reset, failed or not. Before the first one it holds
no occurrence. -/
theorem afterCalls_offset (he : e.WithinDomains) (hs : Reachable e settings s)
    (hnone : s.current = none) (calls : List Call) :
    (s.afterCalls calls).current = none ∨
      ∃ t, LastReset calls t ∧ (s.afterCalls calls).offset = t.offset := by
  induction calls using List.reverseRecOn with
  | nil => exact Or.inl hnone
  | append_singleton calls c ih =>
    have hserves := (hs.afterCalls calls).serves he
    rw [afterCalls_concat]
    cases c with
    | reset t => exact Or.inr ⟨t, ⟨calls, [], rfl, by simp⟩, (reset_carries _ t).session⟩
    | next =>
      rcases ih with hnone | ⟨t, ht, hoffset⟩
      · left
        change (s.afterCalls calls).next.session.current = none
        rw [next_of_none hnone]
        exact hnone
      · exact Or.inr ⟨t, ht.concat_next, (next_carries _).session.trans hoffset⟩

theorem offset_of_call (he : e.WithinDomains) (hs : Reachable e settings s)
    (hnone : s.current = none) (calls : List Call) (c : Call) {t : Moment}
    (ht : ((s.afterCalls calls).call c).result = .ok (some t)) :
    ∃ reference, LastReset (calls ++ [c]) reference ∧ t.offset = reference.offset := by
  have hreached := hs.afterCalls calls
  have hagrees := (call_agrees he (hreached.serves he) (hreached.upholds he) c).2
  rw [ht] at hagrees
  obtain ⟨hcurrent, hholds⟩ := hagrees
  have hlast := afterCalls_offset he hs hnone (calls ++ [c])
  rw [afterCalls_concat] at hlast
  rcases hlast with hempty | ⟨reference, hreference, hoffset⟩
  · rw [hcurrent] at hempty
    contradiction
  · exact ⟨reference, hreference, (hholds t rfl).offset.trans hoffset⟩

end Session

namespace Entry

/-- Offsets are carried and never looked at. From a start with another offset the streams and the
next occurrence are the same with that offset, item by item and failures included. In a session an
occurrence has the offset of the last reset, whether that reset has failed or not. -/
theorem offsets_carried {line : String} {e : Entry} (h : read line = .ok e) (settings : Settings) :
    (∀ (start : Moment) (inclusive : Bool) (offset : Option ℤ),
      e.nextFrom (start.withOffset offset) inclusive settings =
        (e.nextFrom start inclusive settings).map (Option.map (Moment.withOffset offset)) ∧
      ∀ n, ((e.occurrences (start.withOffset offset) inclusive settings).later n).pull.2 =
        ((e.occurrences start inclusive settings).later n).pull.2.map
          (Option.map (Moment.withOffset offset))) ∧
    ∀ s, Session.start e settings = .ok s → ∀ calls c t,
      ((s.afterCalls calls).call c).result = .ok (some t) →
        ∃ reference, Session.LastReset (calls ++ [c]) reference ∧ t.offset = reference.offset := by
  have he := read_withinDomains h
  constructor
  · intro start inclusive offset
    constructor
    · exact e.nextFrom_withOffset offset start inclusive settings
    · intro n
      have hstream : e.occurrences (start.withOffset offset) inclusive settings =
          (e.occurrences start inclusive settings).withOffset offset := rfl
      have hkeeps : (e.occurrences start inclusive settings).KeepsOffset := trivial
      rw [hstream, hkeeps.later_withOffset, (hkeeps.later n).pull_withOffset]
  · intro s hs calls c t ht
    exact Session.offset_of_call he (.start hs) (Session.start_current hs) calls c ht

/-- Two resets with different offsets, of which the second fails like the same question without an
offset. The step after it gives an occurrence with the second offset. -/
theorem offsets_carried_after_failure : ∃ (e : Entry) (settings : Settings) (s : Session)
    (first second c : Moment), read "0 0 30,31 1,2 *" = .ok e ∧ settings.maxInvalidDates = 1 ∧
    Session.start e settings = .ok s ∧ first.offset = some 60 ∧ second.offset = none ∧
    e.nextFrom (second.withOffset (some (-300))) true settings =
      .error (.search (.unsatisfiable 2 2021 2 31)) ∧
    ((s.afterCalls [.reset first, .reset (second.withOffset (some (-300)))]).call .next).result =
      .ok (some c) ∧
    c.components.take 5 = [2022, 1, 30, 0, 0] ∧
    ∃ reference, Session.LastReset
      ([.reset first, .reset (second.withOffset (some (-300)))] ++ [.next]) reference ∧
      c.offset = reference.offset := by
  let settings : Settings := { maxInvalidDates := 1 }
  let first : Moment :=
    { date := ⟨2021, 1, 31, by decide, by decide⟩, hour := 0, minute := 0, offset := some 60,
      hour_lt := by decide, minute_lt := by decide }
  let second : Moment :=
    { date := ⟨2021, 2, 1, by decide, by decide⟩, hour := 0, minute := 0,
      hour_lt := by decide, minute_lt := by decide }
  let calls : List Call := [.reset first, .reset (second.withOffset (some (-300)))]
  let c : Moment :=
    { date := ⟨2022, 1, 30, by decide, by decide⟩, hour := 0, minute := 0, offset := some (-300),
      hour_lt := by decide, minute_lt := by decide }
  have hrun : Session.testStart "0 0 30,31 1,2 *" settings (fun s =>
      decide (((s.afterCalls calls).call .next).result = .ok (some c)) &&
        decide ((s.first second true).result = .error (.unsatisfiable 2 2021 2 31))) = true := by
    decide +kernel
  obtain ⟨e, s, he, hs, htest⟩ := Session.exists_of_testStart hrun
  simp only [Bool.and_eq_true, decide_eq_true_eq] at htest
  obtain ⟨hnext, hfails⟩ := htest
  have hplain : e.nextFrom second true settings =
      .error (.search (.unsatisfiable 2 2021 2 31)) := by
    rw [nextFrom_eq hs, hfails]
    rfl
  have hcarried := offsets_carried he settings
  have hquestion := (hcarried.1 second true (some (-300))).1
  rw [hplain] at hquestion
  exact ⟨e, settings, s, first, second, c, he, rfl, hs, rfl, rfl, hquestion, hnext, rfl,
    hcarried.2 s hs calls .next c hnext⟩

end Entry

end Crontab
