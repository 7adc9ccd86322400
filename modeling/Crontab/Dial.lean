import Crontab.BitScan
import Crontab.Text.Numeral
import Crontab.Text.Quoted

/-! Dials: cursors over the set bits of a mask, and counters without an upper end. -/
namespace Crontab

/-- A cursor that always stands on a set bit of a mask of 64 bits. -/
structure Dial where
  mask : Nat
  value : Nat
  mask_ne_zero : mask ≠ 0
  mask_lt : mask < 1 <<< BitScan.width
  testBit_value : mask.testBit value = true
deriving DecidableEq

inductive DialError where
  | noValues
  | tooWide (mask : Int)
deriving DecidableEq, Repr

namespace DialError

def message : DialError → String
  | noValues => "No valid rotor values"
  | tooWide mask =>
    "Mask " ++ (if mask < 0 then "-0x" else "0x") ++ .ofList (Text.hex mask.natAbs) ++
      " does not fit into 64 bits"

end DialError

namespace Dial

def moved (d : Dial) (position : Int) : Dial :=
  { d with
    value := BitScan.next d.mask position
    testBit_value := BitScan.testBit_next d.mask_ne_zero position }

def ofMask (mask : Int) : Except DialError Dial :=
  if hzero : mask = 0 then .error .noValues
  else if hwide : mask < 0 ∨ (1 <<< BitScan.width : Nat) ≤ mask then .error (.tooWide mask)
  else
    have hne : mask.toNat ≠ 0 := by omega
    .ok {
      mask := mask.toNat
      value := BitScan.next mask.toNat (-1)
      mask_ne_zero := hne
      mask_lt := by
        omega
      testBit_value := BitScan.testBit_next hne (-1) }

def lowest (d : Dial) : Nat :=
  BitScan.trailingZeros d.mask

def advance (d : Dial) : Dial :=
  d.moved d.value

/-- Whether the next legal value is not above the present one. -/
def wraps (d : Dial) : Bool :=
  d.advance.value ≤ d.value

/-- Moves to the least legal value from `target` on, or to the lowest if there is none. -/
def seek (d : Dial) (target : Int) : Dial :=
  d.moved (target - 1)

def passes (d : Dial) (target : Int) : Bool :=
  target < (d.seek target).value

def accepts (d : Dial) (v : Int) : Bool :=
  0 ≤ v && v < BitScan.width && d.mask.testBit v.toNat

def debugText (d : Dial) : String :=
  "MaskRotor(value=" ++ Text.decimal d.value ++ ")"

end Dial

/-- A wheel without an upper end: it never wraps and every value is legal. -/
structure Counter where
  value : Int := 0
deriving DecidableEq, Repr

namespace Counter

def advance (c : Counter) : Counter :=
  ⟨c.value + 1⟩

def seek (_ : Counter) (target : Int) : Counter :=
  ⟨target⟩

def debugText (c : Counter) : String :=
  "CounterRotor(value=" ++ Text.decimal c.value ++ ")"

end Counter

end Crontab
