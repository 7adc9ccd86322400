import Crontab.Dial
import Crontab.Proofs.BitScan

/-! A dial moves to the least legal value beyond a position, and starts again from its lowest
value exactly when nothing legal is left there. -/
namespace Crontab.Dial

def Legal (d : Dial) (v : ℕ) : Prop :=
  d.mask.testBit v = true

instance (d : Dial) : DecidablePred d.Legal :=
  fun v => inferInstanceAs (Decidable (d.mask.testBit v = true))

def AtLowest (d : Dial) : Prop :=
  ∀ v, d.Legal v → d.value ≤ v

theorem ofMask_eq_ok {m : ℕ} (hne : m ≠ 0) (hlt : m < 2 ^ BitScan.width) :
    ∃ d, ofMask m = .ok d ∧ d.mask = m := by
  have hzero : (m : ℤ) ≠ 0 := by exact_mod_cast hne
  have hwide : ¬ ((m : ℤ) < 0 ∨ ((1 <<< BitScan.width : ℕ) : ℤ) ≤ m) := by
    rw [Nat.one_shiftLeft]
    omega
  unfold ofMask
  rw [dif_neg hzero, dif_neg hwide]
  exact ⟨_, rfl, Int.toNat_natCast m⟩

theorem legal_value (d : Dial) : d.Legal d.value :=
  d.testBit_value

theorem lt_width_of_legal (d : Dial) {v : ℕ} (hv : d.Legal v) : v < BitScan.width :=
  BitScan.lt_width_of_testBit (Nat.one_shiftLeft _ ▸ d.mask_lt) hv

@[simp] theorem advance_mask (d : Dial) : d.advance.mask = d.mask := rfl

@[simp] theorem seek_mask (d : Dial) (target : ℤ) : (d.seek target).mask = d.mask := rfl

/-- A dial moves to the least legal value above a position, or else to its lowest. -/
theorem moved_value_isLeastOrElse (d : Dial) (p : ℤ) :
    IsLeastOrElse {v | d.Legal v ∧ p < v} {v | d.Legal v} (d.moved p).value :=
  BitScan.next_isLeastOrElse_of_lt d.mask_ne_zero (Nat.one_shiftLeft _ ▸ d.mask_lt) p

theorem moved_value_of_lt (d : Dial) {p : ℤ} {v : ℕ} (hv : d.Legal v) (hp : p < v) :
    p < (d.moved p).value ∧ (d.moved p).value ≤ v := by
  have hleast := (d.moved_value_isLeastOrElse p).isLeast ⟨v, hv, hp⟩
  exact ⟨hleast.1.2, hleast.2 ⟨hv, hp⟩⟩

theorem moved_value_of_forall_le (d : Dial) {p : ℤ} (h : ∀ v, d.Legal v → (v : ℤ) ≤ p) :
    (d.moved p).AtLowest := by
  have hnone : {v | d.Legal v ∧ p < v} = ∅ :=
    Set.eq_empty_of_forall_notMem fun v hv => absurd (h v hv.1) (not_le.mpr hv.2)
  exact fun v hv => ((d.moved_value_isLeastOrElse p).isLeast_of_empty hnone).2 hv

theorem advance_of_not_wraps {d : Dial} (h : d.wraps = false) :
    d.value < d.advance.value ∧ ∀ v, d.Legal v → d.value < v → d.advance.value ≤ v := by
  constructor
  · simpa [wraps] using h
  · intro v hv hlt
    exact (d.moved_value_of_lt hv (by exact_mod_cast hlt)).2

/-- A dial wraps only from its highest value, and then stands on its lowest. -/
theorem advance_of_wraps {d : Dial} (h : d.wraps = true) :
    (∀ v, d.Legal v → v ≤ d.value) ∧ d.advance.AtLowest := by
  have hmax : ∀ v, d.Legal v → v ≤ d.value := by
    intro v hv
    by_contra hlt
    have hup := (d.moved_value_of_lt hv (p := d.value) (by omega)).1
    have hdown : d.advance.value ≤ d.value := by simpa [wraps] using h
    change (d.value : ℤ) < d.advance.value at hup
    omega
  exact ⟨hmax, d.moved_value_of_forall_le fun v hv => by exact_mod_cast hmax v hv⟩

theorem wraps_iff (d : Dial) : d.wraps = true ↔ ∀ v, d.Legal v → v ≤ d.value := by
  refine ⟨fun h => (advance_of_wraps h).1, fun hmax => ?_⟩
  by_contra hwraps
  have hup := (advance_of_not_wraps (Bool.eq_false_iff.mpr hwraps)).1
  exact absurd (hmax _ d.advance.legal_value) (not_le.mpr hup)

/-- Seeking goes no further than to the least legal value from the target on. -/
theorem seek_le (d : Dial) (target : ℤ) :
    ∀ v, d.Legal v → target ≤ v → (d.seek target).value ≤ v :=
  fun _ hv hle => (d.moved_value_of_lt hv (by omega)).2

/-- Seeking ends below the target only if nothing from there on is legal. -/
theorem seek_of_lt (d : Dial) (target : ℤ) (h : (d.seek target).value < target) :
    ∀ v, d.Legal v → (v : ℤ) < target := by
  intro v hv
  by_contra hle
  have hup := (d.moved_value_of_lt hv (p := target - 1) (by omega)).1
  change target - 1 < (d.seek target).value at hup
  omega

theorem seek_lt_iff (d : Dial) (target : ℤ) :
    (d.seek target).value < target ↔ ∀ v, d.Legal v → (v : ℤ) < target :=
  ⟨d.seek_of_lt target, fun h => h _ (d.seek target).legal_value⟩

theorem seek_zero_atLowest (d : Dial) : (d.seek 0).AtLowest :=
  fun v hv => (d.moved_value_of_lt hv (by omega)).2

end Crontab.Dial
