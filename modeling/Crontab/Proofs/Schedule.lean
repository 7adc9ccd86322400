import Crontab.Occurrences
import Crontab.Proofs.Session

/-! The occurrences of an entry that has been read, as one list: the streams give its items from
the first on, and neither leave one out nor add one. -/
namespace Crontab

namespace Entry

/-- An occurrence of the entry in the years of the settings, from a start on or after it. -/
structure IsDue (e : Entry) (settings : Settings) (start : Moment) (inclusive : Bool)
    (t : Moment) : Prop where
  offset : t.offset = start.offset
  full : t.IsFull
  minYear_le : settings.minYear ≤ t.date.year
  le_maxYear : t.date.year ≤ settings.maxYear
  selected : e.matchesAt t = .ok true
  wanted : if inclusive then ¬ t < start else start < t

variable {e : Entry} {settings : Settings}

theorem accepts_candidate_iff {d : Date} :
    e.Accepts d.candidate ↔ e.daysOfWeek.Allows d.weekday := by
  constructor
  · intro h
    obtain ⟨d', hd, hweekday⟩ := h
    exact Date.candidate_injective hd ▸ hweekday
  · exact fun h => ⟨d, rfl, h⟩

/-- A full minute is selected exactly if its reading is due, apart from the first year. -/
theorem reading_mem_due_iff {t : Moment} (ht : t.IsFull) :
    t.reading ∈ e.due settings ↔ settings.minYear ≤ t.date.year ∧ e.Selects t := by
  have haccepts : e.Accepts t.reading.date ↔ e.daysOfWeek.Allows t.date.weekday :=
    accepts_candidate_iff
  simp only [due, readings, candidates, Set.mem_ofPred_eq, haccepts, Selects, ht.1, ht.2, true_and]
  simp only [Moment.reading, Date.candidate]
  tauto

/-- The full minutes with one offset whose readings are due and lie in a set. -/
def moments (e : Entry) (settings : Settings) (offset : Option ℤ) (R : Set Reading) :
    Set Moment :=
  {t | t.offset = offset ∧ t.IsFull ∧ t.date.year ≤ settings.maxYear ∧
    t.reading ∈ {r ∈ e.due settings | r ∈ R}}

theorem isDue_iff (he : e.WithinDomains) {start : Moment} {inclusive : Bool} {t : Moment} :
    e.IsDue settings start inclusive t ↔
      t ∈ e.moments settings start.offset (start.onward (inclusive = true ∧ start.IsFull)) := by
  have hwanted (hfull : t.IsFull) : (if inclusive then ¬ t < start else start < t) ↔
      t.reading ∈ start.onward (inclusive = true ∧ start.IsFull) := by
    cases inclusive with
    | true => simp [Moment.not_lt_iff_onward hfull.1 hfull.2]
    | false => simp [Moment.lt_iff_onward hfull.1 hfull.2]
  constructor
  · intro h
    obtain ⟨hoffset, hfull, hmin, hmax, hmatch, hw⟩ := h
    have hdue := (reading_mem_due_iff hfull).mpr ⟨hmin, (he.matchesAt_iff t).mp hmatch⟩
    exact ⟨hoffset, hfull, hmax, hdue, (hwanted hfull).mp hw⟩
  · intro h
    obtain ⟨hoffset, hfull, hmax, hdue, hw⟩ := h
    obtain ⟨hmin, hselects⟩ := (reading_mem_due_iff hfull).mp hdue
    exact ⟨hoffset, hfull, hmin, hmax, (he.matchesAt_iff t).mpr hselects, (hwanted hfull).mpr hw⟩

theorem moments_injOn (offset : Option ℤ) (R : Set Reading) :
    (e.moments settings offset R).InjOn Moment.reading := by
  rintro t ⟨ht, hfull, _⟩ t' ⟨ht', hfull', _⟩ hreading
  exact Moment.eq_of_reading_eq hreading (hfull.1.trans hfull'.1.symm)
    (hfull.2.trans hfull'.2.symm) (ht.trans ht'.symm)

/-- Within the years of the settings there are finitely many occurrences. -/
theorem finite_moments (offset : Option ℤ) (R : Set Reading) :
    (e.moments settings offset R).Finite := by
  have hbox := Reading.finite_box settings.minYear settings.maxYear 60
  refine Set.Finite.of_finite_image (hbox.subset ?_) (moments_injOn offset R)
  intro _ h_
  obtain ⟨t, ⟨_, _, hmax, hdue, _⟩, rfl⟩ := h_
  have hmonth := t.date.month_mem
  have hday := t.date.day_mem.2
  have hhour := t.hour_lt
  unfold Calendar.daysIn at hday
  refine ⟨⟨hdue.1.1.1, hmax⟩, ?_, ?_, ?_, t.minute_lt⟩
  · show t.date.month < 60
    omega
  · show t.date.day < 60
    split_ifs at hday <;> omega
  · show t.hour < 60
    omega

/-- The list holds the occurrences in a set of readings, in ascending order. -/
structure Lists (e : Entry) (settings : Settings) (offset : Option ℤ) (R : Set Reading)
    (S : List Moment) : Prop where
  ascending : S.Pairwise fun t t' => t.reading < t'.reading
  mem_iff : ∀ t, t ∈ S ↔ t ∈ e.moments settings offset R

theorem exists_lists (e : Entry) (settings : Settings) (offset : Option ℤ) (R : Set Reading) :
    ∃ S, e.Lists settings offset R S := by
  obtain ⟨S, hascending, hmem⟩ :=
    exists_ascending_list Moment.reading (finite_moments offset R) (moments_injOn offset R)
  exact ⟨S, hascending, hmem⟩

/-- A step that finds the first occurrence onward gives the head of the list, and the occurrences
after that one are its tail. -/
theorem Lists.of_finds {offset : Option ℤ} {R : Set Reading} {S : List Moment}
    (hS : e.Lists settings offset R S) (hR : IsUpperSet R) {step : Step}
    (hfinds : step.Finds settings {r ∈ e.due settings | r ∈ R})
    (hoffset : step.session.offset = offset) {r : Option Moment} (hr : step.result = .ok r) :
    r = S.head? ∧ ∀ t, r = some t → e.Lists settings offset (Set.Ioi t.reading) S.tail := by
  unfold Step.Finds at hfinds
  rw [hr] at hfinds
  cases r with
  | none =>
    cases S with
    | nil => exact ⟨rfl, fun t ht => nomatch ht⟩
    | cons t S =>
      obtain ⟨_, _, hmax, hdue⟩ := (hS.mem_iff t).mp List.mem_cons_self
      exact absurd hmax (not_le.mpr (hfinds.2 _ hdue))
  | some t =>
    obtain ⟨hholds, ⟨hdue, hleast⟩, hmax⟩ := hfinds
    have hmem : t ∈ S := (hS.mem_iff t).mpr
      ⟨hholds.offset.trans hoffset, ⟨hholds.second, hholds.microsecond⟩, hmax, hdue⟩
    cases S with
    | nil => exact absurd hmem List.not_mem_nil
    | cons u S =>
      obtain ⟨hfirst, hascending⟩ := List.pairwise_cons.mp hS.ascending
      obtain ⟨_, _, _, hu⟩ := (hS.mem_iff u).mp List.mem_cons_self
      obtain rfl : t = u := by
        refine (List.mem_cons.mp hmem).resolve_right fun ht => ?_
        exact not_lt.mpr (hleast hu) (hfirst t ht)
      refine ⟨rfl, fun t' ht' => ?_⟩
      obtain rfl := Option.some.inj ht'
      refine ⟨hascending, fun v => ⟨fun hv => ?_, fun hv => ?_⟩⟩
      · obtain ⟨ho, hfull, hyear, hd, _⟩ := (hS.mem_iff v).mp (List.mem_cons_of_mem _ hv)
        exact ⟨ho, hfull, hyear, hd, hfirst v hv⟩
      · obtain ⟨ho, hfull, hyear, hd, hlt⟩ := hv
        have hvS : v ∈ t :: S := (hS.mem_iff v).mpr
          ⟨ho, hfull, hyear, hd, hR (le_of_lt hlt) hdue.2⟩
        refine (List.mem_cons.mp hvS).resolve_left fun heq => ?_
        exact lt_irrefl _ (heq ▸ Set.mem_Ioi.mp hlt)

end Entry

namespace Occurrences

variable {e : Entry} {settings : Settings} {start : Moment} {inclusive : Bool}

theorem after_of_ok {step : Step} {t : Moment} (h : step.result = .ok (some t)) :
    after step start inclusive = (opened step.session start inclusive, .ok (some t)) := by
  rw [after, h]

theorem pull_occurrences {s : Session} (hstart : Session.start e settings = .ok s) :
    (e.occurrences start inclusive settings).pull =
      after (s.first start inclusive) start inclusive := by
  rw [Entry.occurrences, pull, hstart]

/-- The step from an occurrence onward from the start is wanted, and no other one follows it. -/
theorem next_skips (he : e.WithinDomains) {s : Session} (hs : s.Serves e settings) {t : Moment}
    (hholds : s.Holds t) (hoffset : s.offset = start.offset)
    (honward : t.reading ∈ start.onward (inclusive = true ∧ start.IsFull)) :
    s.next.Skips (Almanac.gregorian.counts start inclusive) 0 s.next := by
  apply Step.Skips.ends
  intro u hu
  have huoffset := (s.next_carries.result u hu).trans hoffset
  have hfinds := Session.next_finds he hs hholds
  unfold Step.Finds at hfinds
  rw [hu] at hfinds
  obtain ⟨hu', ⟨⟨_, hlt⟩, _⟩, _⟩ := hfinds
  have hafter : start < u := by
    rw [Moment.lt_iff_onward hu'.second hu'.microsecond]
    exact Or.inl ((honward.imp_right And.right).elim (·.trans hlt) (· ▸ hlt))
  rw [Almanac.gregorian_compares.counts_eq inclusive huoffset, decide_eq_true hafter, Bool.or_true]

/-- Once the stream stands on an occurrence onward from the start, a pull is one step. -/
theorem pull_opened (he : e.WithinDomains) {s : Session} (hs : s.Serves e settings) {t : Moment}
    (hholds : s.Holds t) (hoffset : s.offset = start.offset)
    (honward : t.reading ∈ start.onward (inclusive = true ∧ start.IsFull)) :
    (opened s start inclusive).pull = after s.next start inclusive := by
  rw [pull, (next_skips he hs hholds hoffset honward).skipTo_eq zero_le_one]

/-- A run gives the first occurrences of the list, in their order: as many as were asked for, or
all of them, or those before a failure. -/
def Gives (S : List Moment) (n : ℕ) : List Moment × Ending → Prop
  | (items, .limit) => items <+: S ∧ items.length = n
  | (items, .exhausted) => items = S
  | (items, .failed _) => items <+: S

theorem run_gives (he : e.WithinDomains) {step : Step} (hs : step.session.Serves e settings)
    (hoffset : step.session.offset = start.offset) {R : Set Reading} (hR : IsUpperSet R)
    (honward : R ⊆ start.onward (inclusive = true ∧ start.IsFull))
    (hfinds : step.Finds settings {r ∈ e.due settings | r ∈ R}) {S : List Moment}
    (hS : e.Lists settings start.offset R S) (n : ℕ) {stream : Occurrences}
    (hpull : stream.pull = after step start inclusive) : Gives S n (stream.run n) := by
  induction n generalizing step R S stream with
  | zero => exact ⟨List.nil_prefix, rfl⟩
  | succ n ih =>
    rw [run, hpull]
    cases hresult : step.result with
    | error cause =>
      rw [after, hresult]
      exact List.nil_prefix
    | ok r =>
      obtain ⟨hhead, htail⟩ := hS.of_finds hR hfinds hoffset hresult
      cases r with
      | none =>
        rw [after, hresult]
        exact (List.head?_eq_none_iff.mp hhead.symm).symm
      | some t =>
        obtain ⟨S, rfl⟩ : ∃ S', S = t :: S' := ⟨S.tail, List.eq_cons_of_mem_head? hhead.symm⟩
        unfold Step.Finds at hfinds
        rw [hresult] at hfinds
        obtain ⟨hholds, ⟨⟨_, ht⟩, _⟩, _⟩ := hfinds
        have hrest := ih (Session.next_serves he hs)
          (step.session.next_carries.session.trans hoffset)
          (isUpperSet_Ioi t.reading) (fun r hr => honward (hR (le_of_lt hr) ht))
          (Session.next_finds he hs hholds) (htail t rfl)
          (pull_opened he hs hholds hoffset (honward ht))
        rw [after_of_ok hresult]
        simp only
        match hrun : (opened step.session start inclusive).run n with
        | (items, .limit) =>
          rw [hrun] at hrest
          exact ⟨List.prefix_cons_inj t |>.mpr hrest.1, congrArg (· + 1) hrest.2⟩
        | (items, .exhausted) =>
          rw [hrun] at hrest
          exact congrArg (t :: ·) hrest
        | (items, .failed _) =>
          rw [hrun] at hrest
          exact List.prefix_cons_inj t |>.mpr hrest

end Occurrences

namespace Entry

theorem nextFrom_eq {e : Entry} {settings : Settings} {start : Moment} {inclusive : Bool}
    {s : Session} (hstart : Session.start e settings = .ok s) :
    e.nextFrom start inclusive settings = (s.first start inclusive).result.mapError .search := by
  unfold nextFrom
  rw [hstart]
  cases hresult : (s.first start inclusive).result with
  | error cause => simp only [hresult]; rfl
  | ok t => simp only [hresult]; rfl

/-- The schedule of an entry is a list: its items are the occurrences from the start on, every
run of the stream gives the first of them, and the next occurrence is its head. -/
theorem exists_schedule {line : String} {e : Entry} (h : read line = .ok e) (settings : Settings)
    (start : Moment) (inclusive : Bool) :
    ∃ S : List Moment, S.Pairwise (· < ·) ∧
      (∀ t, t ∈ S ↔ e.IsDue settings start inclusive t) ∧
      (∀ n, Occurrences.Gives S n ((e.occurrences start inclusive settings).run n)) ∧
      ∀ r, e.nextFrom start inclusive settings = .ok r → r = S.head? := by
  have he := read_withinDomains h
  obtain ⟨s, hstart, hs, _⟩ := Session.start_eq_ok he settings
  obtain ⟨S, hS⟩ := e.exists_lists settings start.offset
    (start.onward (inclusive = true ∧ start.IsFull))
  have hserves := Session.first_serves he hs start inclusive
  have hoffset := (Session.first_carries s start inclusive).session
  have hfinds := Session.first_finds he hs start inclusive
  have hupper := start.isUpperSet_onward (inclusive = true ∧ start.IsFull)
  refine ⟨S, hS.ascending.imp fun hlt => Moment.lt_iff.mpr (Or.inl hlt), fun t => ?_,
    fun n => ?_, fun r hr => ?_⟩
  · exact (hS.mem_iff t).trans (isDue_iff he).symm
  · exact Occurrences.run_gives he hserves hoffset hupper subset_rfl hfinds hS n
      (Occurrences.pull_occurrences hstart)
  · rw [nextFrom_eq hstart] at hr
    cases hresult : (s.first start inclusive).result with
    | error cause =>
      rw [hresult] at hr
      contradiction
    | ok t =>
      rw [hresult] at hr
      exact Except.ok.inj hr ▸ (hS.of_finds hupper hfinds hoffset hresult).1

/-- A start on the last day of the last year, between two occurrences: the second one is the whole
schedule. -/
theorem exists_schedule_twice_daily : ∃ (e : Entry) (start evening : Moment),
    read "0 9,21 * * *" = .ok e ∧ start.logText = "9999-12-31 12:30:00" ∧
    evening.logText = "9999-12-31 21:00:00" ∧
    (∃ S : List Moment, S = [evening] ∧ S.Pairwise (· < ·) ∧
      (∀ t, t ∈ S ↔ e.IsDue {} start true t) ∧
      (∀ n, Occurrences.Gives S n ((e.occurrences start true).run n)) ∧
      ∀ r, e.nextFrom start = .ok r → r = S.head?) ∧
    (e.occurrences start true).run 2 = ([evening], .exhausted) ∧
    e.nextFrom start = .ok (some evening) := by
  let lastDay : Date := ⟨9999, 12, 31, by decide, by decide⟩
  let start : Moment :=
    { date := lastDay, hour := 12, minute := 30, hour_lt := by decide, minute_lt := by decide }
  let evening : Moment :=
    { date := lastDay, hour := 21, minute := 0, hour_lt := by decide, minute_lt := by decide }
  have hread : (match read "0 9,21 * * *" with
      | .ok e => decide ((e.occurrences start true).run 2 = ([evening], .exhausted)) &&
        decide (e.nextFrom start = .ok (some evening))
      | .error _ => false) = true := by decide +kernel
  obtain ⟨e, he⟩ : ∃ e, read "0 9,21 * * *" = .ok e := ⟨_, rfl⟩
  simp only [he, Bool.and_eq_true, decide_eq_true_eq] at hread
  obtain ⟨hrun, hnext⟩ := hread
  obtain ⟨S, hascending, hmem, hgives, hhead⟩ := exists_schedule he {} start true
  have hS := hgives 2
  rw [hrun] at hS
  exact ⟨e, start, evening, he, by decide +kernel, by decide +kernel,
    ⟨S, hS.symm, hascending, hmem, hgives, hhead⟩, hrun, hnext⟩

end Entry

end Crontab
