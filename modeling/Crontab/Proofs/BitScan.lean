import Crontab.BitScan
import Mathlib

/-! Scanning finds the least set bit above a position, and starts again from the least one of all
when there is none above, in any integer: the bits of a negative number have no end. That a number
is an odd number moved up to its lowest set bit says which bits it has, and its negation. -/
namespace Crontab

/-- The least element of a set, or of another one if the first is empty. -/
def IsLeastOrElse (s t : Set ℕ) (i : ℕ) : Prop :=
  IsLeast s i ∨ s = ∅ ∧ IsLeast t i

namespace IsLeastOrElse

variable {s t : Set ℕ} {i : ℕ} (h : IsLeastOrElse s t i)
include h

theorem isLeast (hs : s.Nonempty) : IsLeast s i :=
  h.resolve_right fun hnone => hs.ne_empty hnone.1

theorem isLeast_of_empty (hs : s = ∅) : IsLeast t i := by
  rcases h with hleast | hnone
  · exact absurd (hs ▸ hleast.1) (Set.notMem_empty i)
  · exact hnone.2

end IsLeastOrElse

namespace BitScan

def setBits (x : ℤ) : Set ℕ :=
  {i | x.testBit i = true}

theorem setBits_zero : setBits 0 = ∅ := by
  ext i
  change (0 : ℕ).testBit i = true ↔ False
  rw [Nat.zero_testBit]
  exact Bool.false_eq_true.to_iff

theorem mem_setBits_land {x y : ℤ} {i : ℕ} :
    i ∈ setBits (x.land y) ↔ i ∈ setBits x ∧ i ∈ setBits y := by
  simp [setBits]

theorem mem_setBits_neg_sub_one {x : ℤ} {i : ℕ} : i ∈ setBits (-x - 1) ↔ i ∉ setBits x := by
  have hnot : -x - 1 = x.lnot := by
    cases x with
    | ofNat n => simp only [Int.lnot, Int.negSucc_eq, Int.ofNat_eq_natCast]; omega
    | negSucc n => simp only [Int.lnot, Int.negSucc_eq]; omega
  rw [hnot]
  simp [setBits]

theorem mem_setBits_shiftRight {x : ℤ} {s i : ℕ} : i ∈ setBits (x >>> s) ↔ s + i ∈ setBits x := by
  cases x with
  | ofNat n =>
    change (n >>> s).testBit i = true ↔ n.testBit (s + i) = true
    rw [Nat.testBit_shiftRight]
  | negSucc n =>
    change (!(n >>> s).testBit i) = true ↔ (!n.testBit (s + i)) = true
    rw [Nat.testBit_shiftRight]

theorem mem_setBits_bit {b : Bool} {x : ℤ} {i : ℕ} :
    i ∈ setBits (Int.bit b x) ↔ i = 0 ∧ b = true ∨ 0 < i ∧ i - 1 ∈ setBits x := by
  cases i with
  | zero => simp [setBits]
  | succ i => simp [setBits]

theorem mem_setBits_two_mul {x : ℤ} {i : ℕ} :
    i ∈ setBits (2 * x) ↔ 0 < i ∧ i - 1 ∈ setBits x := by
  change i ∈ setBits (Int.bit false x) ↔ _
  simp [mem_setBits_bit]

theorem mem_setBits_two_mul_add_one {x : ℤ} {i : ℕ} :
    i ∈ setBits (2 * x + 1) ↔ i = 0 ∨ 0 < i ∧ i - 1 ∈ setBits x := by
  change i ∈ setBits (Int.bit true x) ↔ _
  simp [mem_setBits_bit]

theorem mem_setBits_two_pow_mul {x : ℤ} {t i : ℕ} :
    i ∈ setBits (2 ^ t * x) ↔ t ≤ i ∧ i - t ∈ setBits x := by
  induction t generalizing i with
  | zero => simp
  | succ t ih =>
    rw [pow_succ', mul_assoc, mem_setBits_two_mul, ih, Nat.sub_sub, Nat.add_comm 1 t, ← and_assoc]
    exact and_congr_left' (by omega)

theorem mem_setBits_two_pow_mul_odd {q : ℤ} {t i : ℕ} :
    i ∈ setBits (2 ^ t * (2 * q + 1)) ↔ i = t ∨ t < i ∧ i - (t + 1) ∈ setBits q := by
  rw [mem_setBits_two_pow_mul, mem_setBits_two_mul_add_one, Nat.sub_sub, and_or_left, ← and_assoc]
  exact or_congr (by omega) (and_congr_left' (by omega))

theorem mem_setBits_two_pow {t i : ℕ} : i ∈ setBits (2 ^ t) ↔ i = t := by
  have hone : (2 : ℤ) ^ t = 2 ^ t * (2 * 0 + 1) := by ring
  rw [hone, mem_setBits_two_pow_mul_odd, setBits_zero]
  simp

/-- Far up, a negative number has set bits and a natural number has none. -/
theorem setBits_natCast_ne_negSucc (m n : ℕ) : setBits m ≠ setBits (Int.negSucc n) := by
  intro h
  have hbit : (m.testBit (m + n) = true) = ((!n.testBit (m + n)) = true) :=
    congrArg (m + n ∈ ·) h
  have hfar : ∀ k ≤ m + n, k.testBit (m + n) = false := fun k hk =>
    Nat.testBit_lt_two_pow (k.lt_two_pow_self.trans_le (Nat.pow_le_pow_right (by decide) hk))
  simp [hfar m (by omega), hfar n (by omega)] at hbit

theorem setBits_injective : Function.Injective setBits := by
  intro x y h
  have hbit : ∀ i, x.testBit i = y.testBit i := fun i =>
    Bool.eq_iff_iff.mpr (Set.ext_iff.mp h i)
  cases x with
  | ofNat m =>
    cases y with
    | ofNat n => exact congrArg Int.ofNat (Nat.eq_of_testBit_eq hbit)
    | negSucc n => exact absurd h (setBits_natCast_ne_negSucc m n)
  | negSucc m =>
    cases y with
    | ofNat n => exact absurd h.symm (setBits_natCast_ne_negSucc n m)
    | negSucc n =>
      exact congrArg Int.negSucc (Nat.eq_of_testBit_eq fun i => Bool.not_inj (hbit i))

section Lowest

variable {x : ℤ} (hx : x ≠ 0)
include hx

theorem exists_eq_two_pow_trailingZeros_mul :
    ∃ q : ℤ, x = 2 ^ trailingZeros x * (2 * q + 1) := by
  obtain ⟨q, hq⟩ := exists_eq_shiftLeft_lowestBit (Int.natAbs_ne_zero.mpr hx)
  rw [Nat.shiftLeft_eq, mul_comm] at hq
  have habs : (x.natAbs : ℤ) = 2 ^ trailingZeros x * (2 * q + 1) := by
    simp only [trailingZeros, if_neg hx]
    exact_mod_cast hq
  rcases Int.natAbs_eq x with hpos | hneg
  · exact ⟨q, hpos.trans habs⟩
  · refine ⟨-q - 1, ?_⟩
    calc
      x = -(x.natAbs : ℤ) := hneg
      _ = -(2 ^ trailingZeros x * (2 * q + 1)) := by rw [habs]
      _ = 2 ^ trailingZeros x * (2 * (-q - 1) + 1) := by ring

theorem trailingZeros_isLeast : IsLeast (setBits x) (trailingZeros x) := by
  obtain ⟨q, hq⟩ := exists_eq_two_pow_trailingZeros_mul hx
  have hmem : ∀ i, i ∈ setBits x ↔
      i = trailingZeros x ∨ trailingZeros x < i ∧ i - (trailingZeros x + 1) ∈ setBits q := by
    intro i
    conv_lhs => rw [hq]
    exact mem_setBits_two_pow_mul_odd
  refine ⟨(hmem _).mpr (Or.inl rfl), fun i hi => ?_⟩
  rcases (hmem i).mp hi with rfl | habove
  · exact le_rfl
  · exact habove.1.le

/-- The lowest set bit is the only one that a number and its negation have in common. -/
theorem land_neg : x.land (-x) = 2 ^ trailingZeros x := by
  obtain ⟨q, hq⟩ := exists_eq_two_pow_trailingZeros_mul hx
  generalize trailingZeros x = t at hq ⊢
  -- above the lowest set bit the negation has the complement of `q`
  have hneg : -x = 2 ^ t * (2 * (-q - 1) + 1) := by rw [hq]; ring
  apply setBits_injective
  ext i
  rw [mem_setBits_land, hneg, hq, mem_setBits_two_pow_mul_odd, mem_setBits_two_pow_mul_odd,
    mem_setBits_neg_sub_one, mem_setBits_two_pow]
  tauto

theorem size_land_neg : (x.land (-x)).natAbs.size = trailingZeros x + 1 := by
  rw [land_neg hx, Int.natAbs_pow]
  exact Nat.size_pow

end Lowest

theorem setBits_above (mask position : ℤ) : {i ∈ setBits mask | position < i} =
    (· + (position + 1).toNat) '' setBits (mask >>> (position + 1).toNat) := by
  ext i
  simp only [Set.mem_image, mem_setBits_shiftRight, Set.mem_ofPred_eq]
  constructor
  · rintro ⟨hi, hlt⟩
    have hle : (position + 1).toNat ≤ i := by omega
    exact ⟨i - (position + 1).toNat, by rwa [Nat.add_sub_cancel' hle], Nat.sub_add_cancel hle⟩
  · rintro ⟨j, hj, rfl⟩
    rw [Nat.add_comm] at hj
    exact ⟨hj, by omega⟩

theorem next_isLeastOrElse {mask : ℤ} (hmask : mask ≠ 0) (position : ℤ) :
    IsLeastOrElse {i ∈ setBits mask | position < 63 ∧ position < i} (setBits mask)
      (next mask position) := by
  have hlowest : IsLeast (setBits mask) (trailingZeros mask) := trailingZeros_isLeast hmask
  by_cases hposition : position < 63
  · have hshift : (position + 1).toNat < width := by simp only [width]; omega
    simp only [hposition, true_and, setBits_above, next, if_pos hshift]
    split
    · next habove =>
      rw [habove, setBits_zero, Set.image_empty]
      exact Or.inr ⟨rfl, hlowest⟩
    · next habove =>
      have hmono : Monotone (· + (position + 1).toNat) := fun _ _ h => Nat.add_le_add_right h _
      exact Or.inl (hmono.map_isLeast (trailingZeros_isLeast habove))
  · have hshift : ¬ (position + 1).toNat < width := by simp only [width]; omega
    simp only [hposition, false_and, and_false, next, if_neg hshift, if_true]
    exact Or.inr ⟨rfl, hlowest⟩

theorem lt_width_of_testBit {n v : ℕ} (hn : n < 2 ^ width) (h : n.testBit v = true) :
    v < width :=
  (Nat.pow_lt_pow_iff_right (by decide)).mp ((Nat.ge_two_pow_of_testBit h).trans_lt hn)

/-- No bit of a mask within the width is above the last position. -/
theorem next_isLeastOrElse_of_lt {n : ℕ} (hne : n ≠ 0) (hlt : n < 2 ^ width) (position : ℤ) :
    IsLeastOrElse {i ∈ setBits n | position < i} (setBits n) (next n position) := by
  have hset : {i ∈ setBits n | position < i} =
      {i ∈ setBits n | position < 63 ∧ position < i} := by
    ext i
    refine and_congr_right fun hi => ?_
    have hbound : i < 64 := lt_width_of_testBit hlt hi
    omega
  rw [hset]
  exact next_isLeastOrElse (Int.natCast_ne_zero.mpr hne) position

/-- The number of trailing zeros is the index of the least set bit, and that bit is all that the
number and its negation have in common. A scan ends on the least set bit above its position if the
position is below 63 and there is one, and else on the least of all. In a mask of 64 bits it turns
back to that exactly when no set bit is above the position. -/
theorem scan_finds_least {x : ℤ} (hx : x ≠ 0) :
    (IsLeast (setBits x) (trailingZeros x) ∧ x.land (-x) = 2 ^ trailingZeros x ∧
      (x.land (-x)).natAbs.size = trailingZeros x + 1) ∧
    ∀ position : ℤ, ∃ i, next? x position = some i ∧
      IsLeastOrElse {j ∈ setBits x | position < 63 ∧ position < j} (setBits x) i ∧
      (0 < x → x < 2 ^ 64 →
        IsLeastOrElse {j ∈ setBits x | position < j} (setBits x) i ∧
        (i ≤ position ↔ ∀ j ∈ setBits x, j ≤ position)) := by
  refine ⟨⟨trailingZeros_isLeast hx, land_neg hx, size_land_neg hx⟩, fun position => ?_⟩
  refine ⟨next x position, if_neg hx, next_isLeastOrElse hx position, fun hpos hlt => ?_⟩
  lift x to ℕ using hpos.le
  have hleast := next_isLeastOrElse_of_lt (by exact_mod_cast hx) (by exact_mod_cast hlt) position
  refine ⟨hleast, fun hi j hj => ?_, fun hnone => ?_⟩
  · by_contra habove
    exact absurd hi (not_le.mpr (hleast.isLeast ⟨j, hj, not_le.mp habove⟩).1.2)
  · have hempty : {j ∈ setBits x | position < j} = ∅ :=
      Set.eq_empty_of_forall_notMem fun j hj => absurd (hnone j hj.1) (not_le.mpr hj.2)
    exact hnone _ (hleast.isLeast_of_empty hempty).1

/-- A negative number with the bits 5, 70 and all above: from 62 on the scan goes beyond the width,
from 63 on it starts again. A mask with the last bit. -/
theorem scan_finds_least_beyond_width : (2 ^ 5 - 2 ^ 70 : ℤ) ≠ 0 ∧
    IsLeast (setBits (2 ^ 5 - 2 ^ 70)) 5 ∧
    next? (2 ^ 5 - 2 ^ 70) 62 = some 70 ∧
    IsLeastOrElse {j ∈ setBits (2 ^ 5 - 2 ^ 70) | (62 : ℤ) < 63 ∧ (62 : ℤ) < j}
      (setBits (2 ^ 5 - 2 ^ 70)) 70 ∧
    next? (2 ^ 5 - 2 ^ 70) 63 = some 5 ∧
    IsLeastOrElse {j ∈ setBits (2 ^ 5 - 2 ^ 70) | (63 : ℤ) < 63 ∧ (63 : ℤ) < j}
      (setBits (2 ^ 5 - 2 ^ 70)) 5 ∧
    next? (2 ^ 63 + 2 ^ 5) 5 = some 63 ∧
    IsLeastOrElse {j ∈ setBits (2 ^ 63 + 2 ^ 5) | (5 : ℤ) < j} (setBits (2 ^ 63 + 2 ^ 5)) 63 := by
  have hwide : (2 ^ 5 - 2 ^ 70 : ℤ) ≠ 0 := by decide
  have hlast : (2 ^ 63 + 2 ^ 5 : ℤ) ≠ 0 := by decide
  have hzeros : trailingZeros (2 ^ 5 - 2 ^ 70) = 5 := by decide +kernel
  have habove : next? (2 ^ 5 - 2 ^ 70) 62 = some 70 := by decide +kernel
  have haround : next? (2 ^ 5 - 2 ^ 70) 63 = some 5 := by decide +kernel
  have hmask : next? (2 ^ 63 + 2 ^ 5) 5 = some 63 := by decide +kernel
  obtain ⟨⟨hleast, _⟩, hscan⟩ := scan_finds_least hwide
  rw [hzeros] at hleast
  obtain ⟨i, hi, hiLeast, _⟩ := hscan 62
  obtain rfl : 70 = i := Option.some.inj (habove.symm.trans hi)
  obtain ⟨j, hj, hjLeast, _⟩ := hscan 63
  obtain rfl : 5 = j := Option.some.inj (haround.symm.trans hj)
  obtain ⟨k, hk, _, hkLeast⟩ := (scan_finds_least hlast).2 5
  obtain rfl : 63 = k := Option.some.inj (hmask.symm.trans hk)
  exact ⟨hwide, hleast, habove, hiLeast, haround, hjLeast, hmask,
    (hkLeast (by decide) (by decide)).1⟩

end BitScan

end Crontab
