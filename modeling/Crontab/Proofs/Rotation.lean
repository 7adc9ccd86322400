import Crontab.Proofs.Dial

/-! Runs of calls of one dial: each call leads to the next legal value, or to the first one from a
target on. The rank of a value, which is the number of legal values below it, goes up by one with
each advance, modulo the number of legal values, so as many advances as there are legal values make
one round. -/
namespace Crontab.Dial

inductive Call where
  | advance
  | seek (target : ℤ)

/-- What a call returns, and the dial that it leaves. -/
def call (d : Dial) : Call → Bool × Dial
  | .advance => (d.wraps, d.advance)
  | .seek target => (d.passes target, d.seek target)

def afterCalls (d : Dial) (calls : List Call) : Dial :=
  calls.foldl (fun d c => (d.call c).2) d

/-- What each call of a list returns, with the value that it leads to. -/
def trace (d : Dial) : List Call → List (Bool × ℕ)
  | [] => []
  | c :: calls => ((d.call c).1, (d.call c).2.value) :: (d.call c).2.trace calls

def advanced (d : Dial) (n : ℕ) : Dial :=
  d.afterCalls (List.replicate n .advance)

def turns (d : Dial) (n : ℕ) : List (Bool × ℕ) :=
  d.trace (List.replicate n .advance)

/-- A dial on one of the values, which advances to the least value above its own and seeks the
least one from a target on, both of them the least of all where there is none. Advancing reports
that there was none, and seeking that it went beyond the target. -/
structure TurnsThrough (d : Dial) (values : Set ℕ) : Prop where
  value_mem : d.value ∈ values
  advance : IsLeastOrElse {v ∈ values | d.value < v} values d.advance.value
  wraps_iff : d.wraps = true ↔ ∀ v ∈ values, v ≤ d.value
  seek (target : ℤ) : IsLeastOrElse {v ∈ values | target ≤ v} values (d.seek target).value
  passes_iff (target : ℤ) : d.passes target = true ↔ target < (d.seek target).value
  seek_lt_iff (target : ℤ) : (d.seek target).value < target ↔ ∀ v ∈ values, v < target

/-- Advancing once for each value leads to each of them once and back to the first, and wraps
once. -/
structure GoesRound (d : Dial) (values : Set ℕ) : Prop where
  nodup : ((d.turns values.ncard).map Prod.snd).Nodup
  mem_iff : ∀ v, v ∈ (d.turns values.ncard).map Prod.snd ↔ v ∈ values
  wraps_once : ((d.turns values.ncard).map Prod.fst).count true = 1
  returns : (d.advanced values.ncard).value = d.value

def values (d : Dial) : List ℕ :=
  (List.range BitScan.width).filter d.Legal

def size (d : Dial) : ℕ :=
  Nat.count d.Legal BitScan.width

/-- The number of legal values below the present one. -/
def rank (d : Dial) : ℕ :=
  Nat.count d.Legal d.value

variable (d : Dial)

theorem turnsThrough_legal : d.TurnsThrough {v | d.Legal v} where
  value_mem := d.legal_value
  advance := by
    have hleast := d.moved_value_isLeastOrElse d.value
    simp only [Nat.cast_lt] at hleast
    exact hleast
  wraps_iff := d.wraps_iff
  seek target := by
    have hleast := d.moved_value_isLeastOrElse (target - 1)
    simp only [Int.sub_one_lt_iff] at hleast
    exact hleast
  passes_iff _ := decide_eq_true_iff
  seek_lt_iff := d.seek_lt_iff

section Rank

theorem mem_values {v : ℕ} : v ∈ d.values ↔ d.Legal v := by
  simp only [values, List.mem_filter, List.mem_range, decide_eq_true_eq, and_iff_right_iff_imp]
  exact d.lt_width_of_legal

theorem length_values : d.values.length = d.size := by
  rw [values, size, Nat.count, List.countP_eq_length_filter]

theorem ncard_legal : {v | d.Legal v}.ncard = d.size := by
  have hset : {v | d.Legal v} = (d.values.toFinset : Set ℕ) := by
    ext v
    rw [Finset.mem_coe, List.mem_toFinset, mem_values]
    rfl
  have hnodup : d.values.Nodup := List.nodup_range.filter _
  rw [hset, Set.ncard_coe_finset, List.toFinset_card_of_nodup hnodup, length_values]

theorem rank_lt_size : d.rank < d.size :=
  Nat.count_strict_mono d.legal_value (d.lt_width_of_legal d.legal_value)

theorem count_legal_eq {a b : ℕ} (hle : a ≤ b) (hnone : ∀ v, d.Legal v → a ≤ v → b ≤ v) :
    Nat.count d.Legal b = Nat.count d.Legal a := by
  refine le_antisymm (not_lt.mp fun hlt => ?_) (Nat.count_monotone _ hle)
  obtain ⟨v, hv, hlegal⟩ := Nat.exists_of_count_lt_count hlt
  exact absurd hv.2 (not_lt.mpr (hnone v hlegal hv.1))

theorem count_legal_value_succ : Nat.count d.Legal (d.value + 1) = d.rank + 1 :=
  Nat.count_succ_eq_succ_count_iff.mpr d.legal_value

theorem rank_advance_of_not_wraps (h : d.wraps = false) : d.advance.rank = d.rank + 1 := by
  obtain ⟨hlt, hleast⟩ := advance_of_not_wraps h
  rw [← count_legal_value_succ]
  exact d.count_legal_eq hlt hleast

theorem rank_of_wraps (h : d.wraps = true) : d.rank + 1 = d.size ∧ d.advance.rank = 0 := by
  obtain ⟨hmax, hlowest⟩ := advance_of_wraps h
  constructor
  · rw [← count_legal_value_succ]
    refine (d.count_legal_eq (d.lt_width_of_legal d.legal_value) fun v hv hlt => ?_).symm
    exact absurd (hmax v hv) (not_le.mpr hlt)
  · exact Nat.count_of_forall_not fun v hlt hv => absurd (hlowest v hv) (not_le.mpr hlt)

theorem wraps_iff_rank : d.wraps = true ↔ d.rank + 1 = d.size := by
  refine ⟨fun h => (d.rank_of_wraps h).1, fun h => ?_⟩
  by_contra hwraps
  have hlt : d.advance.rank < d.size := d.advance.rank_lt_size
  rw [d.rank_advance_of_not_wraps (Bool.eq_false_iff.mpr hwraps)] at hlt
  omega

theorem rank_advance : d.advance.rank = (d.rank + 1) % d.size := by
  cases h : d.wraps with
  | true =>
    obtain ⟨hlast, hzero⟩ := d.rank_of_wraps h
    rw [hlast, hzero, Nat.mod_self]
  | false =>
    have hlt : d.advance.rank < d.size := d.advance.rank_lt_size
    rw [d.rank_advance_of_not_wraps h] at hlt ⊢
    rw [Nat.mod_eq_of_lt hlt]

end Rank

section Calls

theorem call_mask (c : Call) : (d.call c).2.mask = d.mask := by
  cases c <;> rfl

theorem afterCalls_mask (calls : List Call) : (d.afterCalls calls).mask = d.mask := by
  induction calls generalizing d with
  | nil => rfl
  | cons c calls ih => exact (ih (d.call c).2).trans (d.call_mask c)

theorem legal_afterCalls (calls : List Call) : (d.afterCalls calls).Legal = d.Legal := by
  unfold Legal
  rw [afterCalls_mask]

theorem rank_afterCalls (calls : List Call) :
    (d.afterCalls calls).rank = Nat.count d.Legal (d.afterCalls calls).value := by
  unfold rank
  congr! 1
  exact d.legal_afterCalls calls

theorem size_afterCalls (calls : List Call) : (d.afterCalls calls).size = d.size := by
  unfold size
  congr! 1
  exact d.legal_afterCalls calls

theorem turns_eq (n : ℕ) :
    d.turns n = (List.range n).map fun k => ((d.advanced k).wraps, (d.advanced (k + 1)).value) := by
  induction n generalizing d with
  | zero => rfl
  | succ n ih =>
    have htail : d.turns (n + 1) = (d.wraps, d.advance.value) :: d.advance.turns n := rfl
    rw [htail, ih, List.range_succ_eq_map, List.map_cons, List.map_map]
    rfl

theorem rank_advanced (k : ℕ) : (d.advanced k).rank = (d.rank + k) % d.size := by
  induction k generalizing d with
  | zero => exact (Nat.mod_eq_of_lt d.rank_lt_size).symm
  | succ k ih =>
    calc
      (d.advanced (k + 1)).rank = (d.advance.rank + k) % d.size := ih d.advance
      _ = (d.rank + (k + 1)) % d.size := by
        rw [rank_advance, Nat.mod_add_mod, Nat.add_assoc, Nat.add_comm 1 k]

end Calls

section Round

theorem nodup_turns : ((d.turns d.size).map Prod.snd).Nodup := by
  rw [turns_eq, List.map_map]
  refine List.nodup_range.map_on fun k hk l hl h => ?_
  have hvalue : (d.advanced (k + 1)).value = (d.advanced (l + 1)).value := h
  have hrank : d.rank + (k + 1) ≡ d.rank + (l + 1) [MOD d.size] := by
    unfold Nat.ModEq
    rw [← rank_advanced, ← rank_advanced, advanced, advanced, rank_afterCalls, rank_afterCalls]
    exact congrArg _ hvalue
  have hturn : k ≡ l [MOD d.size] := (hrank.add_left_cancel' d.rank).add_right_cancel' 1
  exact hturn.eq_of_lt_of_lt (List.mem_range.mp hk) (List.mem_range.mp hl)

theorem turns_perm_values : ((d.turns d.size).map Prod.snd).Perm d.values := by
  have hlength : d.values.length ≤ ((d.turns d.size).map Prod.snd).length := by
    rw [turns_eq, List.length_map, List.length_map, List.length_range, length_values]
  refine (d.nodup_turns.subperm fun v hv => ?_).perm_of_length_le hlength
  rw [turns_eq, List.map_map] at hv
  obtain ⟨k, _, rfl⟩ := List.mem_map.mp hv
  exact d.mem_values.mpr (d.legal_afterCalls _ ▸ (d.advanced (k + 1)).legal_value)

/-- In a round the dial wraps where its rank is the last one. -/
theorem wraps_advanced_iff {k : ℕ} (hk : k < d.size) :
    (d.advanced k).wraps = true ↔ k = d.size - 1 - d.rank := by
  have hrank := d.rank_lt_size
  rw [wraps_iff_rank, rank_advanced, advanced, size_afterCalls]
  rcases lt_or_ge (d.rank + k) d.size with hlt | hge
  · rw [Nat.mod_eq_of_lt hlt]
    omega
  · rw [Nat.mod_eq_sub_mod hge, Nat.mod_eq_of_lt (by omega)]
    omega

theorem count_wraps_turns : ((d.turns d.size).map Prod.fst).count true = 1 := by
  have hrank := d.rank_lt_size
  have hlast : d.size - 1 - d.rank ∈ List.range d.size := List.mem_range.mpr (by omega)
  have hcount : ((d.turns d.size).map Prod.fst).count true =
      (List.range d.size).count (d.size - 1 - d.rank) := by
    rw [turns_eq, List.map_map, List.count_eq_countP, List.countP_map, List.count_eq_countP]
    refine List.countP_congr fun k hk => ?_
    rw [Function.comp_apply, beq_iff_eq, beq_iff_eq]
    exact d.wraps_advanced_iff (List.mem_range.mp hk)
  rw [hcount, List.count_eq_one_of_mem List.nodup_range hlast]

theorem advanced_size_value : (d.advanced d.size).value = d.value := by
  have hrank : (d.advanced d.size).rank = d.rank := by
    rw [rank_advanced, Nat.add_mod_right, Nat.mod_eq_of_lt d.rank_lt_size]
  rw [advanced, rank_afterCalls] at hrank
  have hlegal : d.Legal (d.advanced d.size).value :=
    d.legal_afterCalls _ ▸ (d.advanced d.size).legal_value
  exact Nat.count_injective hlegal d.legal_value hrank

theorem goesRound_legal : d.GoesRound {v | d.Legal v} := by
  constructor <;> rw [ncard_legal]
  · exact d.nodup_turns
  · exact fun v => d.turns_perm_values.mem_iff.trans d.mem_values
  · exact d.count_wraps_turns
  · exact d.advanced_size_value

end Round

/-- A mask of 64 bits that is not empty has a dial, and after any calls the dial still turns
through the set bits of that mask, one after the other, and round again. -/
theorem ofMask_turnsThrough {mask : ℤ} (hpos : 0 < mask) (hlt : mask < 2 ^ 64) :
    ∃ d, ofMask mask = .ok d ∧ ∀ calls : List Call,
      (d.afterCalls calls).TurnsThrough (BitScan.setBits mask) ∧
      (d.afterCalls calls).GoesRound (BitScan.setBits mask) := by
  lift mask to ℕ using hpos.le
  obtain ⟨d, hd, rfl⟩ := ofMask_eq_ok (by omega : mask ≠ 0) (by exact_mod_cast hlt)
  refine ⟨d, hd, fun calls => ?_⟩
  have hbits : BitScan.setBits d.mask = {v | (d.afterCalls calls).Legal v} := by
    rw [legal_afterCalls]
    rfl
  rw [hbits]
  exact ⟨(d.afterCalls calls).turnsThrough_legal, (d.afterCalls calls).goesRound_legal⟩

/-- A mask with the last bit, from which a dial wraps when it advances, and when it seeks a target
beyond it. -/
theorem ofMask_turnsThrough_last_bit : ∃ d, ofMask (2 ^ 63 + 2 ^ 5 + 1) = .ok d ∧
    d.trace [.seek 64, .seek (-7), .seek 6] = [(false, 0), (true, 0), (true, 63)] ∧
    (d.afterCalls [.seek 64, .seek (-7), .seek 6]).TurnsThrough
      (BitScan.setBits (2 ^ 63 + 2 ^ 5 + 1)) ∧
    (d.afterCalls [.seek 64, .seek (-7), .seek 6]).turns 3 = [(true, 0), (false, 5), (false, 63)] ∧
    (BitScan.setBits (2 ^ 63 + 2 ^ 5 + 1)).ncard = 3 ∧
    (d.afterCalls [.seek 64, .seek (-7), .seek 6]).GoesRound
      (BitScan.setBits (2 ^ 63 + 2 ^ 5 + 1)) := by
  let start : Dial :=
    { mask := 2 ^ 63 + 2 ^ 5 + 1, value := 0, mask_ne_zero := by decide, mask_lt := by decide,
      testBit_value := by decide }
  have hpos : (0 : ℤ) < 2 ^ 63 + 2 ^ 5 + 1 := by decide
  obtain ⟨d, hd, hturns⟩ := ofMask_turnsThrough hpos (by decide)
  have hstart : ofMask (2 ^ 63 + 2 ^ 5 + 1) = .ok start := by decide +kernel
  obtain rfl : start = d := Except.ok.inj (hstart.symm.trans hd)
  refine ⟨start, hd, by decide +kernel, (hturns _).1, by decide +kernel, ?_, (hturns _).2⟩
  exact start.ncard_legal.trans (by decide +kernel)

end Crontab.Dial
