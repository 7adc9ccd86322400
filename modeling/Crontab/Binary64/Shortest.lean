import Crontab.Binary64

/-! The shortest decimal text that reads back as the same binary floating-point number. -/
namespace Crontab.Binary64

/-- A neighbour of `m * 2 ^ e` on the grid `10 ^ k` that rounds to it: of two the nearer, else
the even one. -/
def onGrid? (m : Nat) (e k : Int) : Option Nat :=
  let a := Nat.pow 10 (-k).toNat <<< (e - 2).toNat
  let b := Nat.pow 10 k.toNat <<< (2 - e).toNat
  let gapBelow := if m = 1 <<< 52 ∧ minExponent < e then 1 else 2
  let value := 4 * m * a
  let low := (4 * m - gapBelow) * a
  let high := (4 * m + 2) * a
  let below := value / b
  let above := below + 1
  let fits (x : Nat) : Bool :=
    if m % 2 = 0 then low ≤ x * b && x * b ≤ high else low < x * b && x * b < high
  match fits below, fits above with
  | true, true =>
    let down := value - below * b
    let up := above * b - value
    some (if down < up ∨ (down = up ∧ below % 2 = 0) then below else above)
  | true, false => some below
  | false, true => some above
  | false, false => none

def leadingExponent (m : Nat) (e : Int) : Int :=
  let scaled :=
    if e < 0 then (m * Nat.pow 10 324) >>> (-e).toNat else m <<< e.toNat * Nat.pow 10 324
  (Text.numeral scaled).length - 325

/-- The first grid with a candidate, from one digit on: the candidate and the grid's exponent. -/
def shortestFrom (m : Nat) (e : Int) : Nat → Int → Nat × Int
  | 0, k => (4 * m, k)
  | tries + 1, k =>
    match onGrid? m e k with
    | some x => (x, k)
    | none => shortestFrom m e tries (k - 1)

def shortest (m : Nat) (e : Int) : List Char × Int :=
  let (x, k) := shortestFrom m e 17 (leadingExponent m e)
  let digits := Text.numeral x
  let kept := (digits.reverse.dropWhile (· == '0')).reverse
  (kept, digits.length + k)

/-- Positional from `1e-4` on and below `1e16`, otherwise with an exponent of two digits or more. -/
def layout (digits : List Char) (point : Int) : List Char :=
  if -4 < point ∧ point ≤ 16 then
    if point ≤ 0 then '0' :: '.' :: List.replicate (-point).toNat '0' ++ digits
    else if digits.length ≤ point.toNat then
      digits ++ List.replicate (point.toNat - digits.length) '0' ++ ['.', '0']
    else digits.take point.toNat ++ '.' :: digits.drop point.toNat
  else
    let exponent := point - 1
    let fraction := if digits.length ≤ 1 then [] else '.' :: digits.drop 1
    let size := (Text.padded 2 exponent.natAbs).toList
    digits.take 1 ++ fraction ++ 'e' :: (if exponent < 0 then '-' else '+') :: size

def text : Binary64 → String
  | nan => "nan"
  | infinite negative => if negative then "-inf" else "inf"
  | finite negative m e =>
    let sign := if negative then ['-'] else []
    if m = 0 then .ofList (sign ++ ['0', '.', '0'])
    else
      let (digits, point) := shortest m e
      .ofList (sign ++ layout digits point)

end Crontab.Binary64
