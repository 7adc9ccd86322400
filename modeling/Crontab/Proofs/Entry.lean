import Crontab.Proofs.Field
import Crontab.Proofs.Grammar
import Crontab.Proofs.Reading

/-! An entry that has been read is within its domains: every field has a mask, and an occurrence
is a full minute whose components are all allowed. -/
namespace Crontab

theorem FieldKind.domain_nonneg (kind : FieldKind) : ∀ v ∈ kind.domain, 0 ≤ v :=
  fun _ hv => (kind.domain_subset hv).1

theorem Field.read_within {d : Domain} {text : String} {f : Field}
    (h : Field.read d text = .ok f) : f.Within d := by
  have hatoms := Field.read_eq_ok_iff.mp h
  have hvalid := hatoms.imp fun entry a ha => And.intro (Atom.read_valid ha) ha
  exact ((List.forall₂_and_left _ _).mp hvalid.flip).1

namespace Entry

theorem readField_eq_ok_iff {line : String} {kind : FieldKind} {part : List Char} {f : Field} :
    readField line kind part = .ok f ↔ Field.read kind.domain (.ofList part) = .ok f := by
  unfold readField
  cases Field.read kind.domain (.ofList part) with
  | ok f => rfl
  | error cause => cases cause <;> simp

theorem exists_of_five_le_length {α : Type} {l : List α} (h : 5 ≤ l.length) :
    ∃ a b c d e rest, l = a :: b :: c :: d :: e :: rest := by
  match l, h with
  | a :: b :: c :: d :: e :: rest, _ => exact ⟨a, b, c, d, e, rest, rfl⟩

/-- The first five parts of a line are read as its fields, and the rest is the context. -/
theorem read_eq_ok_iff {line : String} {e : Entry} : read line = .ok e ↔
    5 ≤ (parts line.toList).length ∧
    (∀ kind, Field.read kind.domain (.ofList ((parts line.toList).getD kind.position [])) =
      .ok (e.field kind)) ∧
    e.context = .ofList (Text.trimEnd Text.isBlank ((parts line.toList).drop 5).flatten) ∧
    e.expression = Text.strip line := by
  unfold read
  split
  · next minute hour day month weekday rest hparts =>
    rw [hparts]
    simp only [bind_eq_ok, readField_eq_ok_iff]
    constructor
    · intro h
      obtain ⟨minutes, hminutes, hours, hhours, days, hdays, months, hmonths, weekdays, hweekdays,
        h⟩ := h
      cases h
      refine ⟨by simp, fun kind => ?_, rfl, rfl⟩
      cases kind with
      | minute => exact hminutes
      | hour => exact hhours
      | dayOfMonth => exact hdays
      | month => exact hmonths
      | dayOfWeek => exact hweekdays
    · intro h
      obtain ⟨_, hfields, hcontext, hexpression⟩ := h
      refine ⟨_, hfields .minute, _, hfields .hour, _, hfields .dayOfMonth, _, hfields .month, _,
        hfields .dayOfWeek, ?_⟩
      cases e
      subst hcontext hexpression
      rfl
  · next hparts =>
    constructor
    · intro h
      contradiction
    · intro h
      obtain ⟨minute, hour, day, month, weekday, rest, heq⟩ := exists_of_five_le_length h.1
      exact (hparts _ _ _ _ _ _ heq).elim

/-- Every field lies within the domain of its kind. -/
def WithinDomains (e : Entry) : Prop :=
  ∀ kind, (e.field kind).Within kind.domain

theorem read_withinDomains {line : String} {e : Entry} (h : read line = .ok e) :
    e.WithinDomains := by
  obtain ⟨_, hfields, _⟩ := read_eq_ok_iff.mp h
  exact fun kind => Field.read_within (hfields kind)

namespace WithinDomains

variable {e : Entry} (h : e.WithinDomains)
include h

theorem mask (kind : FieldKind) : ∃ m : ℕ, (e.field kind).mask = .ok m ∧ m ≠ 0 ∧
    m < 2 ^ 64 ∧ ∀ v : ℕ, m.testBit v = true ↔ (e.field kind).Allows v :=
  (h kind).mask fun _ => kind.domain_subset

theorem contains (kind : FieldKind) (v : ℤ) :
    ∃ b, (e.field kind).contains v = .ok b ∧ (b = true ↔ (e.field kind).Allows v) :=
  (h kind).contains (fun _ => kind.domain_subset) v

theorem lt_sixtyFour (kind : FieldKind) {v : ℕ} (hv : (e.field kind).Allows v) : v < 64 := by
  have hmem := kind.domain_subset ((h kind).mem hv)
  omega

theorem month_bounds {v : ℕ} (hv : e.months.Allows v) : 1 ≤ v ∧ v ≤ 12 := by
  have hmem := (h .month).mem hv
  simp only [FieldKind.domain, Domain.mem_iff] at hmem
  omega

theorem hour_lt {v : ℕ} (hv : e.hours.Allows v) : v < 24 := by
  have hmem := (h .hour).mem hv
  simp only [FieldKind.domain, Domain.mem_iff] at hmem
  omega

theorem minute_lt {v : ℕ} (hv : e.minutes.Allows v) : v < 60 := by
  have hmem := (h .minute).mem hv
  simp only [FieldKind.domain, Domain.mem_iff] at hmem
  omega

/-- Matching always has an answer, and it looks at the sets of legal numbers only. -/
theorem matchesAt_eq (t : Moment) : ∃ b, e.matchesAt t = .ok b ∧ (b = true ↔ e.Selects t) := by
  obtain ⟨minute, hminute, hm⟩ := h.contains .minute t.minute
  obtain ⟨hour, hhour, hh⟩ := h.contains .hour t.hour
  obtain ⟨day, hday, hd⟩ := h.contains .dayOfMonth t.date.day
  obtain ⟨month, hmonth, hmo⟩ := h.contains .month t.date.month
  obtain ⟨weekday, hweekday, hw⟩ := h.contains .dayOfWeek t.date.weekday
  simp only [field] at hminute hhour hday hmonth hweekday hm hh hd hmo hw
  by_cases hfull : t.second ≠ 0 ∨ t.microsecond ≠ 0
  · refine ⟨false, by simp only [matchesAt, if_pos hfull]; rfl, ?_⟩
    simp only [Bool.false_eq_true, false_iff, Selects]
    intro h
    obtain ⟨hs, hu, _⟩ := h
    omega
  · refine ⟨minute && hour && day && month && weekday, ?_, ?_⟩
    · simp only [matchesAt, if_neg hfull, hminute, hhour, hday, hmonth, hweekday]
      cases minute <;> cases hour <;> cases day <;> cases month <;> cases weekday <;> rfl
    · have hs : t.second = 0 ∧ t.microsecond = 0 := by omega
      simp only [Bool.and_eq_true, hm, hh, hd, hmo, hw, Selects, hs, true_and, and_assoc]

theorem matchesAt_iff (t : Moment) : e.matchesAt t = .ok true ↔ e.Selects t := by
  obtain ⟨b, hb, hiff⟩ := h.matchesAt_eq t
  rw [hb, ← hiff, Except.ok.injEq]

end WithinDomains

end Entry

end Crontab
