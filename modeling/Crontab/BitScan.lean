/-! Scanning the set bits of an integer in two's complement. -/
namespace Crontab.BitScan

/-- Scanning upwards stops at this bit and starts again from the lowest. -/
def width : Nat := 64

def lowestBit (n : Nat) : Nat :=
  if n = 0 then 0 else if n % 2 = 1 then 0 else lowestBit (n / 2) + 1

/-- The number of zero bits below the lowest set bit; a number and its negation have the same. -/
def trailingZeros (x : Int) : Nat :=
  if x = 0 then width else lowestBit x.natAbs

/-- The lowest set bit above a position below `width`, else the lowest set bit of all. -/
def next (mask position : Int) : Nat :=
  let shift := (position + 1).toNat
  let above := if shift < width then mask >>> shift else 0
  if above = 0 then trailingZeros mask else trailingZeros above + shift

def next? (mask position : Int) : Option Nat :=
  if mask = 0 then none else some (next mask position)

theorem exists_eq_shiftLeft_lowestBit {n : Nat} (h : n ≠ 0) :
    ∃ q, n = (2 * q + 1) <<< lowestBit n := by
  fun_induction lowestBit n with
  | case1 => contradiction
  | case2 n _ hodd => exact ⟨n / 2, by rw [Nat.shiftLeft_zero]; omega⟩
  | case3 n hn heven ih =>
    obtain ⟨q, hq⟩ := ih (by omega)
    refine ⟨q, ?_⟩
    rw [Nat.shiftLeft_succ, ← hq]
    omega

theorem testBit_lowestBit {n : Nat} (h : n ≠ 0) : n.testBit (lowestBit n) = true := by
  obtain ⟨q, hq⟩ := exists_eq_shiftLeft_lowestBit h
  generalize lowestBit n = t at hq ⊢
  rw [hq, Nat.testBit_shiftLeft]
  simp

theorem testBit_trailingZeros {n : Nat} (h : n ≠ 0) :
    n.testBit (trailingZeros (n : Int)) = true := by
  have hne : (n : Int) ≠ 0 := by omega
  simp only [trailingZeros, hne, if_false, Int.natAbs_natCast]
  exact testBit_lowestBit h

theorem testBit_next {n : Nat} (h : n ≠ 0) (position : Int) :
    n.testBit (next (n : Int) position) = true := by
  simp only [next]
  by_cases hshift : (position + 1).toNat < width
  · rw [if_pos hshift, ← Int.natCast_shiftRight]
    split
    · exact testBit_trailingZeros h
    · next habove =>
      have hne : n >>> (position + 1).toNat ≠ 0 := by omega
      have hbit := testBit_trailingZeros hne
      rwa [Nat.testBit_shiftRight, Nat.add_comm] at hbit
  · rw [if_neg hshift, if_pos rfl]
    exact testBit_trailingZeros h

end Crontab.BitScan
