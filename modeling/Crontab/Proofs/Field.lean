import Crontab.Entry.Matching
import Crontab.Entry.Reader
import Mathlib

/-! The mask of a field holds exactly the numbers that its atoms allow. A field that has been
read lies within its domain, so it has a mask, and that mask is not empty. -/
namespace Crontab

namespace Atom

/-- The progression reaches the number in whole steps. -/
def Reaches (a : Atom) (v : ℤ) : Prop :=
  a.first ≤ v ∧ v ≤ a.last ∧ a.step ∣ v - a.first

theorem mem_terms_iff {a : Atom} (hs : 0 < a.step) {v : ℤ} : v ∈ a.terms ↔ a.Reaches v := by
  simp only [terms, term, length, if_pos hs, List.mem_map, List.mem_range, Reaches]
  constructor
  · intro h
    obtain ⟨i, hi, rfl⟩ := h
    split at hi
    · omega
    · next hle =>
      have hbound : (i : ℤ) ≤ (a.last - a.first) / a.step := by
        have := Int.ediv_nonneg (by omega : 0 ≤ a.last - a.first) hs.le
        omega
      have hmul : (i : ℤ) * a.step ≤ a.last - a.first :=
        (Int.le_ediv_iff_mul_le hs).mp hbound
      have hnonneg : 0 ≤ (i : ℤ) * a.step := by positivity
      refine ⟨by omega, by omega, ?_⟩
      rw [add_sub_cancel_left]
      exact Dvd.intro_left _ rfl
  · intro h
    obtain ⟨hlo, hhi, k, hk⟩ := h
    have hk0 : 0 ≤ k := by
      by_contra hneg
      have := Int.mul_neg_of_pos_of_neg hs (not_le.mp hneg)
      omega
    have hkle : k ≤ (a.last - a.first) / a.step := by
      rw [Int.le_ediv_iff_mul_le hs, mul_comm]
      omega
    refine ⟨k.toNat, ?_, ?_⟩
    · rw [if_neg (by omega)]
      omega
    · rw [Int.toNat_of_nonneg hk0, mul_comm]
      omega

theorem reaches_first {a : Atom} {d : Domain} (h : a.Valid d) : a.Reaches a.first := by
  refine ⟨le_rfl, h.2.1, ?_⟩
  rw [sub_self]
  exact dvd_zero _

theorem Reaches.mem {a : Atom} {d : Domain} (h : a.Valid d) {v : ℤ} (hv : a.Reaches v) :
    v ∈ d := by
  obtain ⟨_, _, hfirst, hlast, _⟩ := h
  rw [Domain.mem_iff] at hfirst hlast ⊢
  exact ⟨hfirst.1.trans hv.1, hv.2.1.trans hlast.2⟩

theorem testBit_foldl_or (l : List ℤ) (m i : ℕ) :
    (l.foldl (fun m v => m ||| 1 <<< v.toNat) m).testBit i = true ↔
      m.testBit i = true ∨ ∃ v ∈ l, v.toNat = i := by
  induction l generalizing m with
  | nil => simp
  | cons v l ih =>
    rw [List.foldl_cons, ih, Nat.testBit_or, Bool.or_eq_true, Nat.one_shiftLeft,
      Nat.testBit_two_pow, decide_eq_true_eq, or_assoc, List.exists_mem_cons_iff]

/-- A rising progression that a mask can hold. Its terms are the numbers that it reaches, so it may
be empty. -/
structure Fits (a : Atom) : Prop where
  step_pos : 0 < a.step
  nonneg : 0 ≤ a.first
  last_lt : a.last < maskBits

theorem Valid.fits {a : Atom} {d : Domain} (h : a.Valid d) (hd : ∀ v ∈ d, 0 ≤ v ∧ v < 64) :
    a.Fits := by
  obtain ⟨hfirst, _, _, hlast, hstep⟩ := h
  exact ⟨hstep, hfirst, (hd a.last hlast).2⟩

theorem Fits.mask {a : Atom} (h : a.Fits) :
    ∃ m, a.mask = .ok m ∧ ∀ i : ℕ, m.testBit i = true ↔ a.Reaches i := by
  have hterm : ∀ v ∈ a.terms, 0 ≤ v := fun v hv =>
    h.nonneg.trans ((mem_terms_iff h.step_pos).mp hv).1
  have hlast : ¬ (maskBits : ℤ) ≤ a.last := not_le.mpr h.last_lt
  have hreach : ¬ (0 < a.length ∧ (maskReach : ℤ) ≤ a.first) := by
    intro hboth
    obtain ⟨hlength, hfirst⟩ := hboth
    have hle : a.first ≤ a.last := by
      by_contra hlt
      rw [length, if_pos h.step_pos, if_pos (not_le.mp hlt)] at hlength
      contradiction
    have hreach : (maskReach : ℤ) < maskBits := hfirst.trans_lt (hle.trans_lt h.last_lt)
    exact absurd hreach (by decide)
  have hnegative : ¬ a.hasNegativeTerm = true := by
    simp only [hasNegativeTerm, Bool.and_eq_true, Bool.or_eq_true, decide_eq_true_eq, not_and,
      not_or, not_lt]
    intro hlen
    refine ⟨h.nonneg, hterm _ ?_⟩
    exact List.mem_map.mpr ⟨a.length - 1, List.mem_range.mpr (by omega), rfl⟩
  refine ⟨a.terms.foldl (fun m v => m ||| 1 <<< v.toNat) 0, ?_, fun i => ?_⟩
  · simp only [Atom.mask, if_neg hlast, if_neg h.step_pos.ne', if_neg hreach, if_neg hnegative]
  · rw [testBit_foldl_or, Nat.zero_testBit]
    simp only [Bool.false_eq_true, false_or, ← mem_terms_iff h.step_pos]
    constructor
    · intro h
      obtain ⟨v, hv, rfl⟩ := h
      rwa [Int.toNat_of_nonneg (hterm v hv)]
    · exact fun hi => ⟨i, hi, Int.toNat_natCast i⟩

end Atom

namespace Field

/-- All atoms of the field are legal in the domain. -/
def Within (f : Field) (d : Domain) : Prop :=
  ∀ a ∈ f.atoms, a.Valid d

theorem Within.mem {f : Field} {d : Domain} (h : f.Within d) {v : ℤ} (hv : f.Allows v) :
    v ∈ d := by
  obtain ⟨a, ha, hr⟩ := hv
  exact Atom.Reaches.mem (h a ha) hr

theorem Within.exists_allows {f : Field} {d : Domain} (h : f.Within d) : ∃ v, f.Allows v :=
  ⟨f.head.first, f.head, List.mem_cons_self, Atom.reaches_first (h _ List.mem_cons_self)⟩

theorem foldlM_mask_of_fits (atoms : List Atom) (h : ∀ a ∈ atoms, a.Fits) (m₀ : ℕ) :
    ∃ m, atoms.foldlM (fun m a => return m ||| (← a.mask)) m₀ = Except.ok m ∧
      ∀ i : ℕ, m.testBit i = true ↔ m₀.testBit i = true ∨ ∃ a ∈ atoms, a.Reaches i := by
  induction atoms generalizing m₀ with
  | nil => exact ⟨m₀, rfl, by simp⟩
  | cons a atoms ih =>
    obtain ⟨ma, hma, hbits⟩ := (h a List.mem_cons_self).mask
    obtain ⟨m, hm, hrest⟩ := ih (fun b hb => h b (List.mem_cons_of_mem a hb)) (m₀ ||| ma)
    refine ⟨m, ?_, fun i => ?_⟩
    · rw [List.foldlM_cons, hma]
      exact hm
    · rw [hrest, Nat.testBit_or, Bool.or_eq_true, hbits, or_assoc, List.exists_mem_cons_iff]

def Fits (f : Field) : Prop :=
  ∀ a ∈ f.atoms, a.Fits

theorem Within.fits {f : Field} {d : Domain} (h : f.Within d) (hd : ∀ v ∈ d, 0 ≤ v ∧ v < 64) :
    f.Fits :=
  fun a ha => (h a ha).fits hd

namespace Fits

variable {f : Field} (h : f.Fits)
include h

theorem bounds {v : ℤ} (hv : f.Allows v) : 0 ≤ v ∧ v < maskBits := by
  obtain ⟨a, ha, hfirst, hlast, _⟩ := hv
  exact ⟨(h a ha).nonneg.trans hfirst, hlast.trans_lt (h a ha).last_lt⟩

/-- The mask has 64 bits and says what is allowed. -/
theorem mask : ∃ m : ℕ, f.mask = .ok m ∧ m < 2 ^ 64 ∧
    ∀ v : ℕ, m.testBit v = true ↔ f.Allows v := by
  obtain ⟨m, hm, hbits⟩ := foldlM_mask_of_fits f.atoms h 0
  have hallows : ∀ v : ℕ, m.testBit v = true ↔ f.Allows v := by
    intro v
    rw [hbits, Nat.zero_testBit]
    simp only [Bool.false_eq_true, false_or, Allows, Atom.Reaches]
  refine ⟨m, hm, ?_, hallows⟩
  refine Nat.lt_pow_two_of_testBit m fun i hi => ?_
  by_contra hbit
  have hlt := (h.bounds ((hallows i).mp (by simpa using hbit))).2
  simp only [maskBits] at hlt
  omega

theorem contains (v : ℤ) : ∃ b, f.contains v = .ok b ∧ (b = true ↔ f.Allows v) := by
  by_cases hv : 0 ≤ v ∧ v < maskBits
  · obtain ⟨m, hm, _, hbits⟩ := h.mask
    refine ⟨m.testBit v.toNat, ?_, ?_⟩
    · simp only [Field.contains, if_pos hv, hm]
      rfl
    · rw [hbits, Int.toNat_of_nonneg hv.1]
  · refine ⟨false, by simp only [Field.contains, if_neg hv]; rfl, ?_⟩
    simp only [Bool.false_eq_true, false_iff]
    exact fun ha => hv (h.bounds ha)

end Fits

/-- A field within a domain below 64 has a mask of 64 bits that is not empty and says what is
allowed. -/
theorem Within.mask {f : Field} {d : Domain} (h : f.Within d) (hd : ∀ v ∈ d, 0 ≤ v ∧ v < 64) :
    ∃ m : ℕ, f.mask = .ok m ∧ m ≠ 0 ∧ m < 2 ^ 64 ∧ ∀ v : ℕ, m.testBit v = true ↔ f.Allows v := by
  obtain ⟨m, hm, hlt, hallows⟩ := (h.fits hd).mask
  refine ⟨m, hm, ?_, hlt, hallows⟩
  rintro rfl
  obtain ⟨v, hv⟩ := h.exists_allows
  have hv0 := (hd v (h.mem hv)).1
  rw [← Int.toNat_of_nonneg hv0, ← hallows, Nat.zero_testBit] at hv
  contradiction

theorem Within.contains {f : Field} {d : Domain} (h : f.Within d) (hd : ∀ v ∈ d, 0 ≤ v ∧ v < 64)
    (v : ℤ) : ∃ b, f.contains v = .ok b ∧ (b = true ↔ f.Allows v) :=
  (h.fits hd).contains v

end Field

end Crontab
