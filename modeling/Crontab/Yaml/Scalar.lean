import Crontab.Document
import Crontab.Text.Segments

/-! The values of plain scalars: words for nothing and for truth, integers, and numbers. -/
namespace Crontab.Yaml

namespace Scalar

def nullWords : List String :=
  ["", "~", "null", "Null", "NULL"]

def trueWords : List String :=
  ["yes", "Yes", "YES", "true", "True", "TRUE", "on", "On", "ON"]

def falseWords : List String :=
  ["no", "No", "NO", "false", "False", "FALSE", "off", "Off", "OFF"]

/-- A digit of a base, or the underscore that may stand between digits. -/
def isDigitIn (base : Nat) (c : Char) : Bool :=
  c == '_' || (Text.hexValue? c).any (· < base)

def isNumeralIn (base : Nat) (cs : List Char) : Bool :=
  !cs.isEmpty && cs.all (isDigitIn base)

def withoutUnderscores (cs : List Char) : List Char :=
  cs.filter (· != '_')

def ofBase (base : Nat) (cs : List Char) : Except DocumentError Nat :=
  match (withoutUnderscores cs).filterMap Text.hexValue? with
  | [] => .error (.emptyNumeral base)
  | digits => .ok (Text.ofDigitsIn base digits)

def ofDecimal (cs : List Char) : Except DocumentError Nat :=
  match Text.readNumeral (withoutUnderscores cs) with
  | .ok n => .ok n
  | .error count => .error (.overlong count)

def isSixtieth : List Char → Bool
  | [c] => c.isDigit
  | [c, d] => '0' ≤ c && c ≤ '5' && d.isDigit
  | _ => false

def isPositive : List Char → Bool
  | c :: rest => c.isDigit && c != '0' && rest.all (isDigitIn 10)
  | [] => false

/-- The integer of an unsigned scalar; `none` for a scalar of another kind. -/
def natural? (cs : List Char) : Option (Except DocumentError Nat) :=
  match cs with
  | ['0'] => some (.ok 0)
  | '0' :: 'b' :: digits => if isNumeralIn 2 digits then some (ofBase 2 digits) else none
  | '0' :: 'x' :: digits => if isNumeralIn 16 digits then some (ofBase 16 digits) else none
  | '0' :: digits => if isNumeralIn 8 digits then some (ofBase 8 ('0' :: digits)) else none
  | _ =>
    if isPositive cs then some (ofDecimal cs)
    else
      match Text.segments ':' cs with
      | (_, []) => none
      | (first, others) =>
        if isPositive first && others.all isSixtieth then
          some do
            let numbers ← (first :: others).mapM ofDecimal
            return Text.ofDigitsIn 60 numbers
        else none

def splitSign : List Char → Bool × List Char
  | '-' :: rest => (true, rest)
  | '+' :: rest => (false, rest)
  | rest => (false, rest)

/-- An exponent that a number may end with; its sign is not optional. -/
def isExponent : List Char → Bool
  | [] => true
  | mark :: sign :: digits =>
    (mark == 'e' || mark == 'E') && (sign == '-' || sign == '+') && !digits.isEmpty &&
      digits.all Char.isDigit
  | _ => false

def isDigitRun : List Char → Bool
  | c :: rest => c.isDigit && rest.all (isDigitIn 10)
  | [] => false

/-- A number with a point: digits before it, or only after it. -/
def isPointed (signed : Bool) (cs : List Char) : Bool :=
  let whole := cs.takeWhile (isDigitIn 10)
  match cs.dropWhile (isDigitIn 10) with
  | '.' :: rest =>
    let fraction := rest.takeWhile (isDigitIn 10)
    let tail := rest.dropWhile (isDigitIn 10)
    if whole.isEmpty then !signed && isDigitRun fraction && isExponent tail
    else isDigitRun whole && isExponent tail
  | _ => false

def sixtiethParts? (cs : List Char) : Option (List (List Char)) :=
  match Text.segments ':' cs with
  | (_, []) => none
  | (first, others) =>
    match others.getLast? with
    | none => none
    | some last =>
      match last.dropWhile (· != '.') with
      | '.' :: fraction =>
        if isDigitRun first && others.dropLast.all isSixtieth &&
            isSixtieth (last.takeWhile (· != '.')) && fraction.all (isDigitIn 10) then
          some (first :: others)
        else none
      | _ => none

/-- The sum of parts, the last one first; each weighs sixty times the one before it. -/
def sixtieths (weight : Nat) (sum : Binary64) : List Binary64 → Except DocumentError Binary64
  | [] => .ok sum
  | part :: others =>
    match Binary64.ofNat weight with
    | .infinite _ => .error .weightTooBig
    | factor => sixtieths (60 * weight) (sum.add (part.mul factor)) others

def real? (cs : List Char) : Option (Except DocumentError Binary64) :=
  let signed := cs.head? == some '-' || cs.head? == some '+'
  let (negative, body) := splitSign cs
  if body = ['.', 'i', 'n', 'f'] ∨ body = ['.', 'I', 'n', 'f'] ∨ body = ['.', 'I', 'N', 'F'] then
    some (.ok (.infinite negative))
  else if cs = ['.', 'n', 'a', 'n'] ∨ cs = ['.', 'N', 'a', 'N'] ∨ cs = ['.', 'N', 'A', 'N'] then
    some (.ok .nan)
  else if isPointed signed body then
    (Binary64.unsigned? negative (withoutUnderscores body)).map .ok
  else do
    let parts ← sixtiethParts? body
    let numbers ← parts.mapM fun part => Binary64.unsigned? false (withoutUnderscores part)
    return do
      let sum ← sixtieths 1 (Binary64.ofNat 0) numbers.reverse
      return if negative then sum.negate else sum

def plain (s : String) : Except DocumentError Value :=
  if nullWords.contains s then .ok .null
  else if trueWords.contains s then .ok (.flag true)
  else if falseWords.contains s then .ok (.flag false)
  else
    match real? s.toList with
    | some (.ok x) => .ok (.real x)
    | some (.error e) => .error e
    | none =>
      let (negative, body) := splitSign s.toList
      match natural? body with
      | some (.ok n) => .ok (.integer (if negative then -(n : Int) else n))
      | some (.error e) => .error e
      | none => .ok (.text s)

end Scalar

end Crontab.Yaml
