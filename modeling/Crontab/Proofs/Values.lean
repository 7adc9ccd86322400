import Crontab.Proofs.Schedule

/-! The listed values of a field, its mask and the test of membership are three views of one set of
numbers. Nothing else of its five fields goes into the schedule of an entry. -/
namespace Crontab

theorem mem_dropRepeats_iff {l : List ℤ} {v : ℤ} : v ∈ dropRepeats l ↔ v ∈ l := by
  fun_induction dropRepeats l with
  | case1 => rfl
  | case2 => rfl
  | case3 w rest ih =>
    rw [ih]
    simp only [List.mem_cons, or_self_left]
  | case4 w u rest hne ih => rw [List.mem_cons, List.mem_cons, ih]

/-- In an ascending list it is enough to look at neighbours. -/
theorem pairwise_lt_dropRepeats {l : List ℤ} (h : l.Pairwise (· ≤ ·)) :
    (dropRepeats l).Pairwise (· < ·) := by
  fun_induction dropRepeats l with
  | case1 => exact List.Pairwise.nil
  | case2 => exact List.pairwise_singleton _ _
  | case3 w rest ih => exact ih h.of_cons
  | case4 w u rest hne ih =>
    obtain ⟨hw, hrest⟩ := List.pairwise_cons.mp h
    obtain ⟨hu, _⟩ := List.pairwise_cons.mp hrest
    have hwu : w < u := lt_of_le_of_ne (hw u List.mem_cons_self) hne
    refine List.pairwise_cons.mpr ⟨fun v hv => ?_, ih hrest⟩
    rcases List.mem_cons.mp (mem_dropRepeats_iff.mp hv) with rfl | hv
    · exact hwu
    · exact hwu.trans_le (hu v hv)

namespace Field

theorem mapM_enumerate_eq_ok {atoms : List Atom} (h : ∀ a ∈ atoms, 0 < a.step) :
    atoms.mapM Atom.enumerate = .ok (atoms.map Atom.terms) := by
  refine mapM_eq_ok_of_forall fun a ha => ?_
  rw [Atom.enumerate, if_neg (h a ha).ne']

variable {f g : Field} {d : Domain}

theorem values_eq_ok (h : ∀ a ∈ f.atoms, 0 < a.step) :
    ∃ vs, f.values = .ok vs ∧ vs.Pairwise (· < ·) ∧ ∀ v, v ∈ vs ↔ f.Allows v := by
  refine ⟨_, by rw [values, enumerateAll, mapM_enumerate_eq_ok h]; rfl, ?_, fun v => ?_⟩
  · exact pairwise_lt_dropRepeats (List.pairwise_mergeSort' (· ≤ ·) _)
  · rw [mem_dropRepeats_iff, List.mem_mergeSort, List.mem_flatten]
    simp only [List.mem_map, exists_exists_and_eq_and]
    exact exists_congr fun a => and_congr_right fun ha => Atom.mem_terms_iff (h a ha)

theorem mask_of_overshoot {before after : List Atom} {a : Atom}
    (hatoms : f.atoms = before ++ a :: after) (hbefore : ∀ b ∈ before, b.Fits)
    (ha : (maskBits : ℤ) ≤ a.last) : f.mask = .error (.lastTooBig a.last) := by
  have hmask : a.mask = .error (.lastTooBig a.last) := by
    unfold Atom.mask
    rw [if_pos ha]
  obtain ⟨m, hm, _⟩ := foldlM_mask_of_fits before hbefore 0
  let unite : ℕ → Atom → Except ProgressionError ℕ := fun m a => return m ||| (← a.mask)
  have hstop : (a :: after).foldlM unite m = .error (.lastTooBig a.last) := by
    rw [List.foldlM_cons]
    simp only [unite, hmask]
    rfl
  unfold mask
  rw [hatoms, List.foldlM_append, hm]
  exact hstop

theorem exists_overshoot (h : ∃ a ∈ f.atoms, (maskBits : ℤ) ≤ a.last) : ∃ before a after,
    f.atoms = before ++ a :: after ∧ (∀ b ∈ before, b.last < (maskBits : ℤ)) ∧
      (maskBits : ℤ) ≤ a.last := by
  obtain ⟨a, hfind⟩ : ∃ a, f.atoms.find? (fun a => decide ((maskBits : ℤ) ≤ a.last)) = some a := by
    rw [← Option.isSome_iff_exists, List.find?_isSome]
    simpa using h
  obtain ⟨ha, before, after, hatoms, hbefore⟩ := List.find?_eq_some_iff_append.mp hfind
  refine ⟨before, a, after, hatoms, fun b hb => ?_, of_decide_eq_true ha⟩
  have hnot := hbefore b hb
  simpa using hnot

/-- The listed values, the mask of 64 bits and the test of membership show one set of numbers. -/
structure Shows (f : Field) (vs : List ℤ) (m : ℕ) : Prop where
  lt : m < 2 ^ 64
  bit : ∀ v : ℤ, 0 ≤ v ∧ m.testBit v.toNat = true ↔ v ∈ vs
  contains : ∀ v : ℤ, f.contains v = .ok (decide (v ∈ vs))

theorem Fits.shows {vs : List ℤ} (h : f.Fits) (hvs : ∀ v, v ∈ vs ↔ f.Allows v) :
    ∃ m, f.mask = .ok m ∧ f.Shows vs m := by
  obtain ⟨m, hm, hlt, hbits⟩ := h.mask
  refine ⟨m, hm, hlt, fun v => ?_, fun v => ?_⟩
  · rw [hbits, hvs]
    constructor
    · intro hv
      obtain ⟨hnonneg, hallows⟩ := hv
      rwa [Int.toNat_of_nonneg hnonneg] at hallows
    · intro hallows
      have hnonneg : 0 ≤ v := (h.bounds hallows).1
      exact ⟨hnonneg, by rwa [Int.toNat_of_nonneg hnonneg]⟩
  · obtain ⟨b, hb, hiff⟩ := h.contains v
    have hdecide : b = decide (v ∈ vs) := by
      rw [Bool.eq_iff_iff, hiff, decide_eq_true_iff, hvs]
    rw [hb, hdecide]

/-- With steps of one at least, the values of a field are listed in ascending order and are those that
an atom reaches. If no atom starts below zero, there is no mask exactly if an atom goes beyond 63;
otherwise bits, membership and listed values are the same numbers. A field that was read in a domain
below 64 has a mask that is not empty, and its values are in the domain. -/
theorem views_agree (f : Field) :
    ((∀ a ∈ f.atoms, 1 ≤ a.step) → ∃ vs, f.values = .ok vs ∧ vs.Pairwise (· < ·) ∧
      (∀ v, v ∈ vs ↔ ∃ a ∈ f.atoms, a.first ≤ v ∧ v ≤ a.last ∧ a.step ∣ v - a.first) ∧
      ((∀ a ∈ f.atoms, 0 ≤ a.first) →
        ((∃ last, f.mask = .error (.lastTooBig last)) ↔ ∃ a ∈ f.atoms, 64 ≤ a.last) ∧
        ((∀ a ∈ f.atoms, a.last < 64) → ∃ m, f.mask = .ok m ∧ f.Shows vs m))) ∧
    ∀ d text, (∀ v ∈ d, 0 ≤ v ∧ v < 64) → read d text = .ok f →
      ∃ m vs, f.mask = .ok m ∧ m ≠ 0 ∧ f.values = .ok vs ∧ ∀ v ∈ vs, v ∈ d := by
  constructor
  · intro hstep
    obtain ⟨vs, hvs, hascending, hmem⟩ := values_eq_ok hstep
    refine ⟨vs, hvs, hascending, hmem, fun hnonneg => ?_⟩
    have hfits {atoms : List Atom} (hatoms : ∀ a ∈ atoms, a ∈ f.atoms)
        (hlast : ∀ a ∈ atoms, a.last < maskBits) : ∀ a ∈ atoms, a.Fits := fun a ha =>
      ⟨hstep a (hatoms a ha), hnonneg a (hatoms a ha), hlast a ha⟩
    have hshows (hlast : ∀ a ∈ f.atoms, a.last < 64) : ∃ m, f.mask = .ok m ∧ f.Shows vs m :=
      Fits.shows (hfits (fun _ => id) hlast) hmem
    refine ⟨⟨fun herror => ?_, fun hover => ?_⟩, hshows⟩
    · -- without such an atom there is a mask
      by_contra hnone
      push Not at hnone
      obtain ⟨m, hm, _⟩ := hshows hnone
      obtain ⟨last, hlast⟩ := herror
      rw [hm] at hlast
      contradiction
    · obtain ⟨before, a, after, hatoms, hbefore, ha⟩ := exists_overshoot hover
      have hmem : ∀ b ∈ before, b ∈ f.atoms := fun b hb => hatoms ▸ List.mem_append_left _ hb
      exact ⟨a.last, mask_of_overshoot hatoms (hfits hmem hbefore) ha⟩
  · intro d text hd hread
    have hwithin := read_within hread
    obtain ⟨m, hm, hne, _⟩ := hwithin.mask hd
    obtain ⟨vs, hvs, _, hmem⟩ := values_eq_ok fun a ha => (hwithin a ha).2.2.2.2
    exact ⟨m, vs, hm, hne, hvs, fun v hv => hwithin.mem ((hmem v).mp hv)⟩

/-- Overlapping progressions up to the last bit; an atom that reaches nothing, but goes beyond. -/
theorem views_agree_at_last_bit : let d : Domain := ⟨0, 63⟩
    (∃ f vs m, read d "60-63/3,*/21,63,0-5/9" = .ok f ∧ f.values = .ok vs ∧ f.mask = .ok m ∧
      m ≠ 0 ∧ (∀ v ∈ vs, v ∈ d) ∧ 63 ∈ vs ∧ m.testBit 63 = true ∧ f.contains 63 = .ok true ∧
      61 ∉ vs ∧ f.contains 61 = .ok false ∧ 64 ∉ vs ∧ f.contains 64 = .ok false) ∧
    ∃ g : Field, g.atoms = [⟨0, 5, 1, d⟩, ⟨70, 64, 3, d⟩] ∧ (∃ vs, g.values = .ok vs ∧ 5 ∈ vs) ∧
      ∃ last, g.mask = .error (.lastTooBig last) := by
  intro d
  constructor
  · obtain ⟨f, hf, hatoms⟩ : ∃ f, read d "60-63/3,*/21,63,0-5/9" = .ok f ∧
        f.atoms = [⟨60, 63, 3, d⟩, ⟨0, 63, 21, d⟩, ⟨63, 63, 1, d⟩, ⟨0, 5, 9, d⟩] :=
      exists_ok_of_decide (by decide +kernel)
    obtain ⟨hviews, hread⟩ := views_agree f
    obtain ⟨vs, hvs, _, hmem, hmask⟩ := hviews (by rw [hatoms]; decide)
    obtain ⟨m, hm, hshows⟩ := (hmask (by rw [hatoms]; decide)).2 (by rw [hatoms]; decide)
    have hd : ∀ v ∈ d, 0 ≤ v ∧ v < 64 := fun v hv => ⟨hv.1, Int.lt_of_le_sub_one hv.2⟩
    obtain ⟨m', vs', hm', hne, hvs', hin⟩ := hread d _ hd hf
    obtain rfl := Except.ok.inj (hm.symm.trans hm')
    obtain rfl := Except.ok.inj (hvs.symm.trans hvs')
    rw [hatoms] at hmem
    have h63 : (63 : ℤ) ∈ vs := (hmem 63).mpr (by decide)
    have h61 : (61 : ℤ) ∉ vs := mt (hmem 61).mp (by decide)
    have h64 : (64 : ℤ) ∉ vs := mt (hmem 64).mp (by decide)
    have hcontains := hshows.contains
    refine ⟨f, vs, m, hf, hvs, hm, hne, hin, h63, ((hshows.bit 63).mpr h63).2, ?_, h61, ?_, h64, ?_⟩
    · rw [hcontains, decide_eq_true h63]
    · rw [hcontains, decide_eq_false h61]
    · rw [hcontains, decide_eq_false h64]
  · obtain ⟨hviews, _⟩ := views_agree ⟨⟨0, 5, 1, d⟩, [⟨70, 64, 3, d⟩]⟩
    obtain ⟨vs, hvs, _, hmem, hmask⟩ := hviews (by decide)
    have h5 : (5 : ℤ) ∈ vs := (hmem 5).mpr (by decide)
    exact ⟨_, rfl, ⟨vs, hvs, h5⟩, (hmask (by decide)).1.mpr (by decide)⟩

namespace Within

theorem step_pos (h : f.Within d) : ∀ a ∈ f.atoms, 0 < a.step :=
  fun a ha => (h a ha).2.2.2.2

theorem values_eq_iff (hf : f.Within d) (hg : g.Within d) :
    f.values = g.values ↔ ∀ v, f.Allows v ↔ g.Allows v := by
  obtain ⟨vs, hvs, hascending, hmem⟩ := values_eq_ok hf.step_pos
  obtain ⟨vs', hvs', hascending', hmem'⟩ := values_eq_ok hg.step_pos
  rw [hvs, hvs', Except.ok.injEq]
  constructor
  · rintro rfl v
    exact (hmem v).symm.trans (hmem' v)
  · intro hallows
    apply hascending.eq_of_mem_iff hascending'
    intro v
    exact (hmem v).trans ((hallows v).trans (hmem' v).symm)

theorem mask_eq_iff (hf : f.Within d) (hg : g.Within d) (hd : ∀ v ∈ d, 0 ≤ v ∧ v < 64) :
    f.mask = g.mask ↔ ∀ v, f.Allows v ↔ g.Allows v := by
  obtain ⟨m, hm, _, _, hbits⟩ := hf.mask hd
  obtain ⟨m', hm', _, _, hbits'⟩ := hg.mask hd
  rw [hm, hm', Except.ok.injEq]
  constructor
  · rintro rfl v
    by_cases hv : v < 0
    · -- neither field allows a number below its domain
      have hnone {k : Field} (hk : k.Within d) : ¬ k.Allows v := fun hallows =>
        absurd hv (not_lt.mpr (hd v (hk.mem hallows)).1)
      exact iff_of_false (hnone hf) (hnone hg)
    · obtain ⟨i, rfl⟩ := Int.eq_ofNat_of_zero_le (not_lt.mp hv)
      exact (hbits i).symm.trans (hbits' i)
  · intro hallows
    apply Nat.eq_of_testBit_eq
    intro i
    exact Bool.eq_iff_iff.mpr ((hbits i).trans ((hallows i).trans (hbits' i).symm))

end Within

theorem contains_congr (h : f.mask = g.mask) (v : ℤ) : f.contains v = g.contains v := by
  unfold contains
  rw [h]

end Field

theorem Session.dialOf_congr {f g : Field} (h : f.mask = g.mask) : dialOf f = dialOf g := by
  unfold dialOf maskOf
  rw [h]

namespace Entry

variable {e f : Entry}

/-- The values of the fields are equal exactly if their masks are. -/
theorem WithinDomains.values_eq_iff (he : e.WithinDomains) (hf : f.WithinDomains)
    (kind : FieldKind) :
    (e.field kind).values = (f.field kind).values ↔ (e.field kind).mask = (f.field kind).mask := by
  have hdomain : ∀ v ∈ kind.domain, 0 ≤ v ∧ v < 64 := fun _ => kind.domain_subset
  rw [(he kind).values_eq_iff (hf kind), (he kind).mask_eq_iff (hf kind) hdomain]

section Masks

variable (h : ∀ kind, (e.field kind).mask = (f.field kind).mask)
include h

theorem matchesAt_congr (t : Moment) : e.matchesAt t = f.matchesAt t := by
  have hminute := Field.contains_congr (h .minute)
  have hhour := Field.contains_congr (h .hour)
  have hday := Field.contains_congr (h .dayOfMonth)
  have hmonth := Field.contains_congr (h .month)
  have hweekday := Field.contains_congr (h .dayOfWeek)
  simp only [field] at hminute hhour hday hmonth hweekday
  unfold matchesAt
  simp only [hminute, hhour, hday, hmonth, hweekday]

/-- A session is made of the masks alone. -/
theorem start_congr (settings : Settings) :
    Session.start e settings = Session.start f settings := by
  have hminute := Session.dialOf_congr (h .minute)
  have hhour := Session.dialOf_congr (h .hour)
  have hday := Session.dialOf_congr (h .dayOfMonth)
  have hmonth := Session.dialOf_congr (h .month)
  have hweekday := h .dayOfWeek
  simp only [field] at hminute hhour hday hmonth hweekday
  unfold Session.start Session.maskOf
  rw [hminute, hhour, hday, hmonth, hweekday]

theorem nextFrom_congr (start : Moment) (inclusive : Bool) (settings : Settings) :
    e.nextFrom start inclusive settings = f.nextFrom start inclusive settings := by
  unfold nextFrom
  rw [start_congr h]

theorem pull_occurrences_congr (start : Moment) (inclusive : Bool) (settings : Settings) :
    (e.occurrences start inclusive settings).pull =
      (f.occurrences start inclusive settings).pull := by
  rw [occurrences, occurrences, Occurrences.pull, Occurrences.pull, start_congr h]

theorem run_occurrences_congr (start : Moment) (inclusive : Bool) (settings : Settings) (n : ℕ) :
    (e.occurrences start inclusive settings).run n =
      (f.occurrences start inclusive settings).run n := by
  cases n with
  | zero => rfl
  | succ n => rw [Occurrences.run, Occurrences.run, pull_occurrences_congr h]

end Masks

/-- The schedule depends on the listed values only. Entries whose fields have the same values, in
whatever spelling, match the same moments, and their streams and their next occurrences are the
same, failures included. -/
theorem schedule_of_values {line line' : String} {e f : Entry} (he : read line = .ok e)
    (hf : read line' = .ok f) (h : ∀ kind, (e.field kind).values = (f.field kind).values) :
    (∀ t, e.matchesAt t = f.matchesAt t) ∧
    ∀ start inclusive settings,
      (e.occurrences start inclusive settings).pull =
        (f.occurrences start inclusive settings).pull ∧
      (∀ n, (e.occurrences start inclusive settings).run n =
        (f.occurrences start inclusive settings).run n) ∧
      e.nextFrom start inclusive settings = f.nextFrom start inclusive settings := by
  have hmasks (kind : FieldKind) : (e.field kind).mask = (f.field kind).mask :=
    ((read_withinDomains he).values_eq_iff (read_withinDomains hf) kind).mp (h kind)
  refine ⟨matchesAt_congr hmasks, fun start inclusive settings => ⟨?_, fun n => ?_, ?_⟩⟩
  · exact pull_occurrences_congr hmasks start inclusive settings
  · exact run_occurrences_congr hmasks start inclusive settings n
  · exact nextFrom_congr hmasks start inclusive settings

/-- The last three days of February, in two spellings with different texts after them. Both
entries are refused alike in 1922, before the leap day that they allow. -/
theorem schedule_of_values_respelled : ∃ (e f : Entry) (start : Moment),
    read "0 0 29-31 2 3" = .ok e ∧ read "00 */24 31,30,029,30 2/11 3-3/7 job" = .ok f ∧
    e.context ≠ f.context ∧ (∀ kind, (e.field kind).values = (f.field kind).values) ∧
    (∀ t, e.matchesAt t = f.matchesAt t) ∧
    e.nextFrom start true .default = .error (.search (.unsatisfiable 101 1922 2 30)) ∧
    f.nextFrom start true .default = .error (.search (.unsatisfiable 101 1922 2 30)) := by
  let start : Moment :=
    { date := ⟨1889, 1, 1, by decide, by decide⟩, hour := 0, minute := 0,
      hour_lt := by decide, minute_lt := by decide }
  let masks : List (Except ProgressionError ℕ) :=
    [.ok 1, .ok 1, .ok (2 ^ 29 + 2 ^ 30 + 2 ^ 31), .ok (2 ^ 2), .ok (2 ^ 3)]
  obtain ⟨e, he, hfails, hcontext, hmasks⟩ : ∃ e, read "0 0 29-31 2 3" = .ok e ∧
      e.nextFrom start true .default = .error (.search (.unsatisfiable 101 1922 2 30)) ∧
      e.context = "" ∧ FieldKind.all.map (fun kind => (e.field kind).mask) = masks :=
    exists_ok_of_decide (by decide +kernel)
  obtain ⟨f, hf, hcontext', hmasks'⟩ : ∃ f, read "00 */24 31,30,029,30 2/11 3-3/7 job" = .ok f ∧
      f.context = "job" ∧ FieldKind.all.map (fun kind => (f.field kind).mask) = masks :=
    exists_ok_of_decide (by decide +kernel)
  have hvalues (kind : FieldKind) : (e.field kind).values = (f.field kind).values := by
    have hkind : kind ∈ FieldKind.all := by cases kind <;> decide
    rw [(read_withinDomains he).values_eq_iff (read_withinDomains hf)]
    exact List.map_inj_left.mp (hmasks.trans hmasks'.symm) kind hkind
  obtain ⟨hmatches, hschedule⟩ := schedule_of_values he hf hvalues
  have hcontexts : e.context ≠ f.context := by
    rw [hcontext, hcontext']
    decide
  exact ⟨e, f, start, he, hf, hcontexts, hvalues, hmatches, hfails,
    (hschedule start true .default).2.2 ▸ hfails⟩

end Entry

end Crontab
