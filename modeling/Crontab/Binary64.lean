import Crontab.Text.Numeral

/-! Binary floating-point numbers of 64 bits, by their exact values. -/
namespace Crontab

/-- A finite number is `significand * 2 ^ exponent`, with a sign that zero has too. -/
inductive Binary64 where
  | nan
  | infinite (negative : Bool)
  | finite (negative : Bool) (significand : Nat) (exponent : Int)
deriving DecidableEq, Repr

namespace Binary64

def minExponent : Int := -1074

def maxExponent : Int := 971

/-- The quotient to the nearest integer; a half goes to the even neighbour. -/
def roundEven (num den : Nat) : Nat :=
  let q := num / den
  let r := num % den
  if 2 * r < den then q
  else if den < 2 * r then q + 1
  else if q % 2 = 0 then q else q + 1

/-- The ratio `num / den` in units of `2 ^ exponent`. -/
def inUnits (num den : Nat) (exponent : Int) : Nat × Nat :=
  if exponent < 0 then (num <<< (-exponent).toNat, den) else (num, den <<< exponent.toNat)

/-- The nearest number to a ratio, with an even significand on a tie. -/
def ofRatio (negative : Bool) (num den : Nat) : Binary64 :=
  if num = 0 then finite negative 0 minExponent
  else
    let low := max ((num.log2 : Int) - den.log2 - 53) minExponent
    let (n, d) := inUnits num den low
    let unit := if n / d < 1 <<< 53 then low else low + 1
    let (n, d) := inUnits num den unit
    let m := roundEven n d
    let (m, unit) := if m = 1 <<< 53 then (1 <<< 52, unit + 1) else (m, unit)
    if maxExponent < unit then infinite negative else finite negative m unit

def ofNat (n : Nat) : Binary64 :=
  ofRatio false n 1

def ofScaled (negative : Bool) (n : Nat) (exponent : Int) : Binary64 :=
  if exponent < 0 then ofRatio negative n (1 <<< (-exponent).toNat)
  else ofRatio negative (n <<< exponent.toNat) 1

def ofDecimal (negative : Bool) (digits : Nat) (exponent : Int) : Binary64 :=
  let size := (Text.numeral digits).length + exponent
  if digits = 0 ∨ size < -330 then finite negative 0 minExponent
  else if 310 < size then infinite negative
  else if exponent < 0 then ofRatio negative digits (Nat.pow 10 (-exponent).toNat)
  else ofRatio negative (digits * Nat.pow 10 exponent.toNat) 1

def negate : Binary64 → Binary64
  | nan => nan
  | infinite negative => infinite !negative
  | finite negative m e => finite (!negative) m e

def truncate : Binary64 → Option Int
  | finite negative m e =>
    let size : Nat := if e < 0 then m >>> (-e).toNat else m <<< e.toNat
    some (if negative then -(size : Int) else size)
  | _ => none

def exponent? : List Char → Option Int
  | [] => some 0
  | c :: rest =>
    let value (digits : List Char) : Option Int :=
      if digits.isEmpty || !digits.all Char.isDigit then none
      else some (Text.ofDigits (digits.map Text.digitOf))
    if c ≠ 'e' ∧ c ≠ 'E' then none
    else match rest with
      | '-' :: digits => (value digits).map (- ·)
      | '+' :: digits => value digits
      | digits => value digits

def unsigned? (negative : Bool) (cs : List Char) : Option Binary64 :=
  let whole := cs.takeWhile Char.isDigit
  let (fraction, rest) :=
    match cs.dropWhile Char.isDigit with
    | '.' :: rest => (rest.takeWhile Char.isDigit, rest.dropWhile Char.isDigit)
    | rest => ([], rest)
  if whole.isEmpty && fraction.isEmpty then none
  else
    (exponent? rest).map fun e =>
      ofDecimal negative (Text.ofDigits ((whole ++ fraction).map Text.digitOf))
        (e - fraction.length)

def special? (negative : Bool) (cs : List Char) : Option Binary64 :=
  match String.ofList (cs.map Char.toLower) with
  | "inf" => some (infinite negative)
  | "infinity" => some (infinite negative)
  | "nan" => some nan
  | _ => none

def read? (s : String) : Option Binary64 := do
  let number (negative : Bool) (cs : List Char) : Option Binary64 :=
    special? negative cs <|> unsigned? negative cs
  match ← Text.joinDigits? ((Text.trim Text.isLiteralBlank s.toList).map Text.asciiDigit) with
  | '-' :: rest => number true rest
  | '+' :: rest => number false rest
  | rest => number false rest

/-- The sum, exact for two finite numbers and then rounded. -/
def add : Binary64 → Binary64 → Binary64
  | nan, _ => nan
  | _, nan => nan
  | infinite s, infinite t => if s = t then infinite s else nan
  | infinite s, _ => infinite s
  | _, infinite t => infinite t
  | finite s m e, finite t n f =>
    let unit := min e f
    let a : Int := (if s then -1 else 1) * (m <<< (e - unit).toNat : Nat)
    let b : Int := (if t then -1 else 1) * (n <<< (f - unit).toNat : Nat)
    let sum := a + b
    let negative := if sum = 0 then s && t else decide (sum < 0)
    ofScaled negative sum.natAbs unit

def mul : Binary64 → Binary64 → Binary64
  | nan, _ => nan
  | _, nan => nan
  | infinite s, infinite t => infinite (s != t)
  | infinite s, finite t n _ => if n = 0 then nan else infinite (s != t)
  | finite s m _, infinite t => if m = 0 then nan else infinite (s != t)
  | finite s m e, finite t n f => ofScaled (s != t) (m * n) (e + f)

end Binary64

end Crontab
