import Crontab.Proofs.Retry

/-! What a session remembers. Its wheels are told by what they show, so a session that stands on an
occurrence is told by that occurrence. A reset therefore forgets all that was before it, and a step
onward from an occurrence is the same as a new question from there. -/
namespace Crontab

theorem Dial.eq_of_legal_iff {d d' : Dial} (hlegal : ∀ v, d.Legal v ↔ d'.Legal v)
    (hvalue : d.value = d'.value) : d = d' := by
  have hmask : d.mask = d'.mask := Nat.eq_of_testBit_eq fun v => Bool.eq_iff_iff.mpr (hlegal v)
  cases d
  cases d'
  simp only at hmask hvalue
  subst hmask hvalue
  rfl

/-- Wheels with the legal values of one entry are told by what they show. -/
theorem Odometer.Serves.eq_of_shown_eq {e : Entry} {settings : Settings} {o o' : Odometer}
    (h : o.Serves e settings) (h' : o'.Serves e settings) (hshown : o.shown = o'.shown) :
    o = o' := by
  simp only [shown, Reading.mk.injEq, Candidate.mk.injEq] at hshown
  obtain ⟨⟨hyear, hmonth, hday⟩, hhour, hminute⟩ := hshown
  have hyears : o.year = o'.year := congrArg Counter.mk hyear
  have hmonths : o.month = o'.month :=
    Dial.eq_of_legal_iff (fun v => (h.month v).trans (h'.month v).symm) hmonth
  have hdays : o.day = o'.day :=
    Dial.eq_of_legal_iff (fun v => (h.day v).trans (h'.day v).symm) hday
  have hhours : o.hour = o'.hour :=
    Dial.eq_of_legal_iff (fun v => (h.hour v).trans (h'.hour v).symm) hhour
  have hminutes : o.minute = o'.minute :=
    Dial.eq_of_legal_iff (fun v => (h.minute v).trans (h'.minute v).symm) hminute
  cases o
  cases o'
  simp only at hyears hmonths hdays hhours hminutes
  subst hyears hmonths hdays hhours hminutes
  rfl

namespace Step

/-- Two steps look the same from outside: one result, the same reports, and wheels and an offset
that agree. Only a failed step may leave another occurrence as the current one. -/
structure Agrees (step step' : Step) : Prop where
  result : step.result = step'.result
  log : step.log = step'.log
  odometer : step.session.odometer = step'.session.odometer
  offset : step.session.offset = step'.session.offset
  session : (∃ c, step.result = .ok c) → step.session = step'.session

variable {step step' : Step}

theorem Agrees.eq_of_ok (h : step.Agrees step') (hok : ∃ c, step.result = .ok c) :
    step = step' := by
  have hsession := h.session hok
  have hresult := h.result
  have hlog := h.log
  cases step
  cases step'
  simp only at hsession hresult hlog
  subst hsession hresult hlog
  rfl

theorem Agrees.of_eq (h : step = step') : step.Agrees step' := by
  subst h
  exact ⟨rfl, rfl, rfl, rfl, fun _ => rfl⟩

theorem skipTo_of_error {cause : SearchError} (h : step.result = .error cause)
    (wanted : Moment → Except AlmanacError Bool) (limit : Moment) :
    step.skipTo wanted limit = step := by
  apply skipTo_of_wanted
  intro t ht
  rw [h] at ht
  contradiction

theorem Agrees.skipTo (h : step.Agrees step') (wanted : Moment → Except AlmanacError Bool)
    (limit : Moment) :
    (step.skipTo wanted limit).Agrees (step'.skipTo wanted limit) := by
  cases hresult : step.result with
  | error cause =>
    have hresult' : step'.result = .error cause := h.result.symm.trans hresult
    rw [skipTo_of_error hresult, skipTo_of_error hresult']
    exact h
  | ok c =>
    have heq := h.eq_of_ok ⟨c, hresult⟩
    rw [heq]
    exact .of_eq rfl

theorem Agrees.reportsReset (h : step.Agrees step') (t : Moment) :
    (step.reportsReset t).Agrees (step'.reportsReset t) := by
  cases hresult : step.result with
  | error cause =>
    have hresult' : step'.result = .error cause := h.result.symm.trans hresult
    unfold Step.reportsReset
    rw [hresult, hresult']
    exact h
  | ok c =>
    have heq := h.eq_of_ok ⟨c, hresult⟩
    rw [heq]
    exact .of_eq rfl

end Step

namespace Session

variable {e : Entry} {settings : Settings} {s s' : Session} {t : Moment}

/-- Sessions of one entry differ in what they show, in their offsets and in what is current. -/
theorem Serves.eq_of_shown_eq (hs : s.Serves e settings) (hs' : s'.Serves e settings)
    (hshown : s.odometer.shown = s'.odometer.shown) (hoffset : s.offset = s'.offset) :
    s' = { s with current := s'.current } := by
  have hsettings : s.settings = s'.settings := hs.settings_eq.trans hs'.settings_eq.symm
  have hodometer := hs.odometer.eq_of_shown_eq hs'.odometer hshown
  have hweekdays : s.weekdays = s'.weekdays := Nat.eq_of_testBit_eq fun v =>
    Bool.eq_iff_iff.mpr ((hs.weekdays v).trans (hs'.weekdays v).symm)
  cases s
  cases s'
  simp only at hsettings hodometer hweekdays hoffset
  subst hsettings hodometer hweekdays hoffset
  rfl

theorem Serves.eq_of_holds (hs : s.Serves e settings) (hs' : s'.Serves e settings)
    (h : s.Holds t) (h' : s'.Holds t) : s = s' := by
  have hshown : s.odometer.shown = s'.odometer.shown := h.shown.trans h'.shown.symm
  have hoffset : s.offset = s'.offset := h.offset.symm.trans h'.offset
  have hcurrent : s.current = s'.current := h.current.trans h'.current.symm
  rw [hs.eq_of_shown_eq hs' hshown hoffset, ← hcurrent]

theorem settle_agrees (s : Session) (c : Option Moment) :
    s.settle.Agrees { s with current := c }.settle := by
  unfold settle
  dsimp only
  cases (Search.run s.settings s.weekdays s.odometer).outcome with
  | error cause => exact ⟨rfl, rfl, rfl, rfl, fun hok => nomatch hok.choose_spec⟩
  | ok d? =>
    cases d? with
    | none => exact .of_eq rfl
    | some d =>
      dsimp only
      split
      · exact ⟨rfl, rfl, rfl, rfl, fun hok => nomatch hok.choose_spec⟩
      · exact .of_eq rfl

/-- Whatever was before it, a reset has one result and leaves the same wheels and offset. -/
theorem reset_agrees (hs : s.Serves e settings) (hs' : s'.Serves e settings) (t : Moment) :
    (s.reset t).Agrees (s'.reset t) := by
  -- the seeks end at the least reading from `t` on, whatever the wheels showed before
  have hleast := hs.aligned_isLeast t
  have hleast' := hs'.aligned_isLeast t
  have haligned : s'.aligned t = { s.aligned t with current := s'.current } :=
    (hs.aligned t).eq_of_shown_eq (hs'.aligned t) (hleast.unique hleast') rfl
  have hsettle : (s.aligned t).settle.Agrees (s'.aligned t).settle := by
    rw [haligned]
    exact (s.aligned t).settle_agrees s'.current
  rw [reset_eq_reportsReset, reset_eq_reportsReset]
  exact (hsettle.skipTo (Almanac.gregorian.reaches t) t).reportsReset t

/-- A reset to an occurrence of the window stands on that occurrence. -/
theorem reset_of_due (he : e.WithinDomains) (hs : s.Serves e settings) (hfull : t.IsFull)
    (hyear : t.date.year ≤ settings.maxYear) (hdue : t.reading ∈ e.due settings) :
    (s.reset t).result = .ok (some t) ∧ (s.reset t).session.Holds t := by
  obtain ⟨r, hr, hsearch⟩ := reset_search he hs t
  have hfinds := reset_finds he hs t
  have hoffset := (reset_carries s t).session
  have hkept : ¬ t.Misses e settings t.IsFull := fun hmisses => hmisses.2.2 hfull
  have hmem : t.reading ∈
      {r ∈ e.readings settings | r ∈ t.onward (¬ t.Misses e settings t.IsFull)} :=
    ⟨hdue.1, Or.inr ⟨hkept, rfl⟩⟩
  have hleast : r = t.reading :=
    (hr.2 hmem).antisymm (Moment.reading_le_of_mem_onward hr.1.2)
  rw [hleast] at hsearch
  obtain ⟨c, hc, hreading⟩ := Step.result_of_due hsearch hfinds hdue hyear hfull
  unfold Step.Finds at hfinds
  rw [hc] at hfinds
  obtain ⟨hholds, _, _⟩ := hfinds
  have hct : c = t := Moment.eq_of_reading_eq hreading (hholds.second.trans hfull.1.symm)
    (hholds.microsecond.trans hfull.2.symm) (hholds.offset.trans hoffset)
  subst hct
  exact ⟨hc, hholds⟩

/-- The first occurrence after another one is a step onward from there. -/
theorem first_after_of_due (he : e.WithinDomains) (hs : s.Serves e settings) (hfull : t.IsFull)
    (hyear : t.date.year ≤ settings.maxYear) (hdue : t.reading ∈ e.due settings) :
    (s.first t false).session = (s.reset t).session.next.session ∧
      (s.first t false).result = (s.reset t).session.next.result := by
  obtain ⟨hresult, hholds⟩ := reset_of_due he hs hfull hyear hdue
  have hunwanted : Almanac.gregorian.counts t false t = .ok false := by
    rw [Almanac.gregorian_compares.counts_eq false rfl]
    simp [Moment.lt_iff]
  apply Step.skipTo_of_unwanted t hresult hunwanted
  intro u hu
  have hoffset := ((reset_carries s t).further).result u hu
  have hnext := next_finds he (reset_serves he hs t) hholds
  unfold Step.Finds at hnext
  rw [hu] at hnext
  obtain ⟨_, ⟨⟨_, hlt⟩, _⟩, _⟩ := hnext
  have hafter : t < u := Moment.lt_iff.mpr (Or.inl hlt)
  rw [Almanac.gregorian_compares.counts_eq false hoffset, decide_eq_true hafter, Bool.or_true]

/-- A reset forgets all that was before it: from every state it has the result that it has from a
new session, and it leaves the same wheels and the same offset. When it returns, the steps after it
cannot be told apart either. -/
theorem reset_forgets {line : String} {e : Entry} (h : Entry.read line = .ok e)
    {settings : Settings} {s : Session} (hs : Reachable e settings s) (t : Moment) :
    ∃ fresh, start e settings = .ok fresh ∧ (s.reset t).Agrees (fresh.reset t) ∧
      ((∃ c, (s.reset t).result = .ok c) →
        (s.reset t).session.current = (fresh.reset t).session.current ∧
        ∀ n, ((s.reset t).session.after n).next = ((fresh.reset t).session.after n).next) := by
  have he := Entry.read_withinDomains h
  obtain ⟨fresh, hfresh, hserves, _⟩ := start_eq_ok he settings
  have hagrees := reset_agrees (hs.serves he) hserves t
  refine ⟨fresh, hfresh, hagrees, fun hok => ?_⟩
  have hsession := hagrees.session hok
  exact ⟨congrArg current hsession, fun n => congrArg (fun s => (s.after n).next) hsession⟩

/-- A reset after a failed step, which has left the wheels on the 31st of February. The hour wraps
while the reference is sought, and carries into the day. -/
theorem reset_forgets_failure : ∃ (e : Entry) (settings : Settings) (s : Session) (t c : Moment),
    Entry.read "0 0 30,31 1,2 *" = .ok e ∧ settings.maxInvalidDates = 1 ∧
    Reachable e settings s ∧ s.odometer.reading = [2021, 2, 31, 0, 0] ∧
    (s.reset t).result = .ok (some c) ∧ c.components.take 5 = [2021, 1, 31, 0, 0] ∧
    ∃ fresh, start e settings = .ok fresh ∧ (s.reset t).Agrees (fresh.reset t) ∧
      (fresh.reset t).session.current = some c := by
  let settings : Settings := { maxInvalidDates := 1 }
  let t : Moment :=
    { date := ⟨2021, 1, 30, by decide, by decide⟩, hour := 12, minute := 0,
      hour_lt := by decide, minute_lt := by decide }
  let c : Moment :=
    { date := ⟨2021, 1, 31, by decide, by decide⟩, hour := 0, minute := 0,
      hour_lt := by decide, minute_lt := by decide }
  have hrun : testStart "0 0 30,31 1,2 *" settings (fun s =>
      let failed := (s.reset c).session.next.session
      decide (failed.odometer.reading = [2021, 2, 31, 0, 0]) &&
        decide ((failed.reset t).result = .ok (some c)) &&
        decide ((failed.reset t).session.current = some c)) = true := by
    decide +kernel
  obtain ⟨e, s, he, hs, htest⟩ := exists_of_testStart hrun
  simp only [Bool.and_eq_true, decide_eq_true_eq] at htest
  obtain ⟨⟨hreading, hresult⟩, hcurrent⟩ := htest
  have hfailed := ((Reachable.start hs).reset c).next
  obtain ⟨fresh, hfresh, hagrees, hsame⟩ := reset_forgets he hfailed t
  have hcurrent' := (hsame ⟨_, hresult⟩).1.symm.trans hcurrent
  exact ⟨e, settings, _, t, c, he, rfl, hfailed, hreading, hresult, rfl, fresh, hfresh, hagrees,
    hcurrent'⟩

/-- After a call that has returned an occurrence, the next step is the question for the first
occurrence after it, asked of a new session: they have the same outcome and leave the same state. -/
theorem next_eq_fresh {line : String} {e : Entry} (h : Entry.read line = .ok e)
    {settings : Settings} {s : Session} (hs : Reachable e settings s) (c : Call) {t : Moment}
    (ht : (s.call c).result = .ok (some t)) :
    e.nextFrom t false settings = (s.call c).session.next.result.mapError .search ∧
    ∃ fresh, start e settings = .ok fresh ∧
      (fresh.first t false).result = (s.call c).session.next.result ∧
      (fresh.first t false).session = (s.call c).session.next.session := by
  have he := Entry.read_withinDomains h
  obtain ⟨fresh, hfresh, hserves, _⟩ := start_eq_ok he settings
  have hreached := hs.call c
  have hagrees := (call_agrees he (hs.serves he) (hs.upholds he) c).2
  rw [ht] at hagrees
  have hholds := hagrees.2 t rfl
  obtain ⟨hfull, hyear, hdue⟩ := hreached.upholds he t hholds.current
  obtain ⟨_, hfreshHolds⟩ := reset_of_due he hserves hfull hyear hdue
  -- reset to `t`, the new session stands where the old one does
  have hsame : (fresh.reset t).session = (s.call c).session :=
    (reset_serves he hserves t).eq_of_holds (hreached.serves he) hfreshHolds hholds
  obtain ⟨hsession, hresult⟩ := first_after_of_due he hserves hfull hyear hdue
  rw [hsame] at hsession hresult
  refine ⟨?_, fresh, hfresh, hresult, hsession⟩
  rw [Entry.nextFrom_eq hfresh, hresult]

/-- A session that has recovered from a failed step stands on the 31st of January of the next year.
There both the step and the new question fail, at the 31st of February. -/
theorem next_eq_fresh_after_failure : ∃ (e : Entry) (settings : Settings) (s : Session)
    (t : Moment), Entry.read "0 0 30,31 1,2 *" = .ok e ∧ settings.maxInvalidDates = 1 ∧
    Reachable e settings s ∧ (s.call .next).result = .ok (some t) ∧
    t.components.take 5 = [2022, 1, 31, 0, 0] ∧
    (s.call .next).session.next.result = .error (.unsatisfiable 2 2022 2 31) ∧
    e.nextFrom t false settings = .error (.search (.unsatisfiable 2 2022 2 31)) ∧
    ∃ fresh, start e settings = .ok fresh ∧
      (fresh.first t false).session = (s.call .next).session.next.session := by
  let settings : Settings := { maxInvalidDates := 1 }
  let origin : Moment :=
    { date := ⟨2021, 1, 31, by decide, by decide⟩, hour := 0, minute := 0,
      hour_lt := by decide, minute_lt := by decide }
  let t : Moment :=
    { date := ⟨2022, 1, 31, by decide, by decide⟩, hour := 0, minute := 0,
      hour_lt := by decide, minute_lt := by decide }
  have hrun : testStart "0 0 30,31 1,2 *" settings (fun s =>
      let recovered := (s.reset origin).session.next.session.next.session
      decide ((recovered.call .next).result = .ok (some t)) &&
        decide ((recovered.call .next).session.next.result =
          .error (.unsatisfiable 2 2022 2 31))) = true := by
    decide +kernel
  obtain ⟨e, s, he, hs, htest⟩ := exists_of_testStart hrun
  simp only [Bool.and_eq_true, decide_eq_true_eq] at htest
  obtain ⟨hresult, hfails⟩ := htest
  have hrecovered := ((Reachable.start hs).reset origin).next.next
  obtain ⟨hnext, fresh, hfresh, _, hsession⟩ := next_eq_fresh he hrecovered .next hresult
  rw [hfails] at hnext
  exact ⟨e, settings, _, t, he, rfl, hrecovered, hresult, rfl, hfails, hnext, fresh, hfresh,
    hsession⟩

end Session

end Crontab
