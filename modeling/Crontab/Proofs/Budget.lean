import Crontab.Proofs.Calendar
import Crontab.Proofs.Reachable

/-! The budget of a search. It gives up exactly if it passes over more rejected dates than the
budget allows, and forty dates for each pair of a day and a month are always enough. -/
namespace Crontab

def Field.legal (f : Field) : Set ℕ :=
  {v | f.Allows v}

theorem Field.legal_single (d : Domain) (v : ℕ) : Field.legal ⟨.single d v, []⟩ = {v} := by
  ext u
  simp only [legal, Allows, atoms, Atom.single, Set.mem_ofPred_eq, List.mem_singleton,
    exists_eq_left, one_dvd, and_true, Set.mem_singleton_iff]
  omega

namespace Entry

variable {e : Entry} {settings : Settings}

/-- The dates of the window that a search has to pass over before the first occurrence in a set
of readings: they lie from the first legal reading of the set on. -/
def passed (e : Entry) (settings : Settings) (R : Set Reading) : Set Candidate :=
  {x ∈ e.candidates settings | x.year ≤ settings.maxYear ∧
    (∃ r ∈ R, r ∈ e.readings settings ∧ r.date ≤ x) ∧ ∀ r ∈ R, r ∈ e.due settings → x < r.date}

theorem finite_passed (he : e.WithinDomains) (settings : Settings) (R : Set Reading) :
    (e.passed settings R).Finite := by
  refine ((Reading.finite_box settings.minYear settings.maxYear 64).image Reading.date).subset ?_
  intro x hx
  obtain ⟨⟨hmin, hmonth, hday⟩, hmax, _⟩ := hx
  exact ⟨⟨x, 0, 0⟩, ⟨⟨hmin, hmax⟩, he.lt_sixtyFour .month hmonth,
    he.lt_sixtyFour .dayOfMonth hday, Nat.succ_pos _, Nat.succ_pos _⟩, rfl⟩

/-- The dates from the least reading on, and before every accepted one. -/
theorem mem_passed_iff {R : Set Reading} (hR : IsUpperSet R) {r : Reading}
    (hr : IsLeast {r ∈ e.readings settings | r ∈ R} r) {x : Candidate} :
    x ∈ e.passed settings R ↔ x ∈ {x ∈ e.candidates settings | r.date ≤ x} ∧
      x.year ≤ settings.maxYear ∧
      ∀ y ∈ {x ∈ e.candidates settings | r.date ≤ x}, e.Accepts y → x < y := by
  obtain ⟨⟨hmem, hrR⟩, hleast⟩ := hr
  have hdate (y : Candidate) (hy : y ∈ e.candidates settings) (hle : r.date ≤ y) :
      ∃ q ∈ R, q ∈ e.readings settings ∧ q.date = y := by
    rcases hle.eq_or_lt with rfl | hlt
    · exact ⟨r, hrR, hmem, rfl⟩
    · exact ⟨⟨y, r.hour, r.minute⟩, hR (Reading.lt_of_date_lt hlt).le hrR, ⟨hy, hmem.2⟩, rfl⟩
  constructor
  · intro h
    obtain ⟨hx, hyear, ⟨q, hqR, hq, hqx⟩, hbefore⟩ := h
    refine ⟨⟨hx, (Reading.date_le (hleast ⟨hq, hqR⟩)).trans hqx⟩, hyear, ?_⟩
    rintro y ⟨hy, hle⟩ haccepts
    obtain ⟨q', hqR', hq', rfl⟩ := hdate y hy hle
    exact hbefore q' hqR' ⟨hq', haccepts⟩
  · intro h
    obtain ⟨⟨hx, hle⟩, hyear, hbefore⟩ := h
    refine ⟨hx, hyear, ⟨r, hrR, hmem, hle⟩, fun q hqR hq => ?_⟩
    exact hbefore q.date ⟨hq.1.1, Reading.date_le (hleast ⟨hq.1, hqR⟩)⟩ hq.2

/-- A search gives up exactly if it passes over more dates than its budget. -/
theorem SearchEnds.gives_up_iff {R : Set Reading} (hR : IsUpperSet R) {r : Reading}
    (hr : IsLeast {r ∈ e.readings settings | r ∈ R} r) (he : e.WithinDomains)
    {outcome : Except SearchError (Option Date)} (h : e.SearchEnds settings r.date outcome) :
    (∃ cause, outcome = .error cause) ↔
      settings.maxInvalidDates < (e.passed settings R).ncard := by
  obtain ⟨xs, hlength, hfirst, hends⟩ := h
  have hcard : (xs.toFinset : Set Candidate).ncard = settings.maxInvalidDates + 1 := by
    rw [Set.ncard_coe_finset, List.toFinset_card_of_nodup (hfirst.ascending.imp ne_of_lt), hlength]
  constructor
  · intro h
    obtain ⟨cause, rfl⟩ := h
    have hsub : (xs.toFinset : Set Candidate) ⊆ e.passed settings R := by
      intro x hx
      have hx : x ∈ xs := List.mem_toFinset.mp hx
      refine (mem_passed_iff hR hr).mpr ⟨hfirst.mem x hx, (hends.1 x hx).1, fun y hy haccepts => ?_⟩
      by_contra hle
      have hy : y ∈ xs := (not_lt.mp hle).eq_or_lt.elim (· ▸ hx) (hfirst.before x hx y hy)
      exact (hends.1 y hy).2 haccepts
    have := Set.ncard_le_ncard hsub (finite_passed he settings R)
    omega
  · intro hbudget
    cases outcome with
    | error cause => exact ⟨cause, rfl⟩
    | ok d? =>
      have hspent : ¬ ∀ x ∈ xs, x.year ≤ settings.maxYear ∧ ¬ e.Accepts x := by
        cases d? with
        | none => exact hends.1
        | some d => exact hends.1
      push Not at hspent
      obtain ⟨stop, hstop, hend⟩ := hspent
      -- no date from the one on that ended the search has been passed over
      have hsub : e.passed settings R ⊆ (xs.toFinset : Set Candidate) \ {stop} := by
        intro x hx
        obtain ⟨hx, hyear, hbefore⟩ := (mem_passed_iff hR hr).mp hx
        have hlt : x < stop := by
          by_contra hle
          have hstopYear := (Candidate.year_le (not_lt.mp hle)).trans hyear
          exact hle (hbefore stop (hfirst.mem stop hstop) (hend hstopYear))
        exact ⟨List.mem_toFinset.mpr (hfirst.before stop hstop x hx hlt), hlt.ne⟩
      have hle := Set.ncard_le_ncard hsub (xs.toFinset.finite_toSet.sdiff)
      rw [Set.ncard_sdiff_singleton_of_mem (List.mem_toFinset.mpr hstop), hcard] at hle
      omega

/-- Some legal day of some legal month exists in leap years. -/
def HasPossibleDate (e : Entry) : Prop :=
  ∃ month day : ℕ, e.months.Allows month ∧ e.daysOfMonth.Allows day ∧
    ∃ year, Calendar.isLeap year = true ∧ day ≤ Calendar.daysIn year month

/-- The pairs of a legal day and a legal month. -/
noncomputable def pairs (e : Entry) : ℕ :=
  e.daysOfMonth.legal.ncard * e.months.legal.ncard

/-- Forty years, from one date to the date of the same name. -/
def fortyYears (e : Entry) (settings : Settings) (c : Candidate) : Set Candidate :=
  {x ∈ e.candidates settings | c ≤ x ∧ x < ⟨c.year + 40, c.month, c.day⟩}

/-- Within forty years a pair of a day and a month is met once in each year. -/
theorem fortyYears_injOn (c : Candidate) :
    (e.fortyYears settings c).InjOn fun x => (x.year % 40, x.day, x.month) := by
  rintro ⟨y, m, d⟩ ⟨_, hlo, hhi⟩ ⟨y', m', d'⟩ ⟨_, hlo', hhi'⟩ heq
  simp only [Prod.mk.injEq] at heq
  obtain ⟨hyear, rfl, rfl⟩ := heq
  rw [← not_lt, Candidate.lt_iff] at hlo hlo'
  rw [Candidate.lt_iff] at hhi hhi'
  simp only [Candidate.mk.injEq, and_true]
  simp only at hlo hlo' hhi hhi'
  omega

theorem ncard_fortyYears_le (he : e.WithinDomains) (settings : Settings) (c : Candidate) :
    (e.fortyYears settings c).Finite ∧ (e.fortyYears settings c).ncard ≤ 40 * e.pairs := by
  have hdays : e.daysOfMonth.legal.Finite :=
    (Set.finite_lt_nat 64).subset fun _ => he.lt_sixtyFour .dayOfMonth
  have hmonths : e.months.legal.Finite :=
    (Set.finite_lt_nat 64).subset fun _ => he.lt_sixtyFour .month
  let box : Set (ℤ × ℕ × ℕ) :=
    (Finset.Ico (0 : ℤ) 40 : Set ℤ) ×ˢ e.daysOfMonth.legal ×ˢ e.months.legal
  have hbox : box.Finite := (Finset.finite_toSet _).prod (hdays.prod hmonths)
  have hmaps : ∀ x ∈ e.fortyYears settings c, (x.year % 40, x.day, x.month) ∈ box := by
    intro x hx
    obtain ⟨⟨_, hmonth, hday⟩, _⟩ := hx
    refine ⟨Finset.mem_coe.mpr (Finset.mem_Ico.mpr ?_), hday, hmonth⟩
    exact ⟨Int.emod_nonneg _ (by decide), Int.emod_lt_of_pos _ (by decide)⟩
  have hinj : (e.fortyYears settings c).InjOn fun x => (x.year % 40, x.day, x.month) :=
    fortyYears_injOn c
  refine ⟨hbox.of_injOn hmaps hinj, (Set.ncard_le_ncard_of_injOn _ hmaps hinj hbox).trans ?_⟩
  rw [Set.ncard_prod, Set.ncard_prod, Set.ncard_coe_finset, Int.card_Ico]
  exact le_rfl

theorem exists_accepts_fortyYears (he : e.WithinDomains) (hpossible : e.HasPossibleDate)
    {c : Candidate} (hc : settings.minYear ≤ c.year) :
    ∃ a ∈ e.fortyYears settings c, e.Accepts a := by
  obtain ⟨month, day, hmonth, hday, hexists⟩ := hpossible
  obtain ⟨w, hw⟩ := (he .dayOfWeek).exists_allows
  have hwdomain := (he .dayOfWeek).mem hw
  have hdomain := (he .dayOfMonth).mem hday
  simp only [FieldKind.domain, Domain.mem_iff] at hwdomain hdomain
  -- the day of the first year is behind the start already, or it is not
  let first : ℤ := if month < c.month ∨ month = c.month ∧ day < c.day then c.year + 1 else c.year
  obtain ⟨d, hlo, hhi, rfl, rfl, hweekday⟩ := Date.exists_weekday_within_forty_years
    (he.month_bounds hmonth) (by omega) hexists first (w := w.toNat) (by omega)
  have hallows : e.daysOfWeek.Allows d.weekday := by
    rw [hweekday, Int.toNat_of_nonneg hwdomain.1]
    exact hw
  have hfirst : c.year ≤ first := by
    simp only [first]
    split_ifs <;> omega
  refine ⟨d.candidate, ⟨⟨hc.trans (hfirst.trans hlo), hmonth, hday⟩, ?_, ?_⟩, d, rfl, hallows⟩
  · rw [← not_lt, Candidate.lt_iff]
    simp only [Date.candidate]
    simp only [first] at hlo
    split_ifs at hlo <;> omega
  · rw [Candidate.lt_iff]
    simp only [Date.candidate]
    simp only [first] at hhi
    split_ifs at hhi <;> omega

/-- A search passes over fewer dates than there are pairs in forty years. -/
theorem ncard_passed_lt (he : e.WithinDomains) (hpossible : e.HasPossibleDate) {R : Set Reading}
    (hR : IsUpperSet R) {r : Reading} (hr : IsLeast {r ∈ e.readings settings | r ∈ R} r) :
    (e.passed settings R).ncard < 40 * e.pairs := by
  obtain ⟨a, ha, haccepts⟩ := exists_accepts_fortyYears he hpossible hr.1.1.1.1
  obtain ⟨hfinite, hcard⟩ := ncard_fortyYears_le he settings r.date
  have hsub : e.passed settings R ⊂ e.fortyYears settings r.date := by
    have hbefore : ∀ x ∈ e.passed settings R, x < a := fun x hx =>
      ((mem_passed_iff hR hr).mp hx).2.2 a ⟨ha.1, ha.2.1⟩ haccepts
    refine Set.ssubset_iff_of_subset (fun x hx => ?_) |>.mpr ⟨a, ha, fun h => (hbefore a h).false⟩
    have hx' := ((mem_passed_iff hR hr).mp hx).1
    exact ⟨hx'.1, hx'.2, (hbefore x hx).trans ha.2.2⟩
  exact (Set.ncard_lt_ncard hsub hfinite).trans_le hcard

end Entry

end Crontab
