import Crontab.Document

/-! JSON texts as values; the names `NaN`, `Infinity` and `-Infinity` are numbers too. -/
namespace Crontab.Json

def isBlank (c : Char) : Bool :=
  c == ' ' || c == '\t' || c == '\n' || c == '\r'

def skipBlanks (cs : List Char) : List Char :=
  cs.dropWhile isBlank

def hexNumber? (digits : List Char) : Option Nat :=
  (digits.mapM Text.hexValue?).map (Text.ofDigitsIn 16)

def shortEscape? : Char → Option Char
  | '"' => some '"'
  | '\\' => some '\\'
  | '/' => some '/'
  | 'b' => some '\x08'
  | 'f' => some '\x0c'
  | 'n' => some '\n'
  | 'r' => some '\r'
  | 't' => some '\t'
  | _ => none

/-- The code points of a string up to its closing quote, and what follows that. -/
def stringBody : List Char → Option (List Nat × List Char)
  | [] => none
  | '"' :: rest => some ([], rest)
  | '\\' :: 'u' :: a :: b :: c :: d :: rest => do
    let n ← hexNumber? [a, b, c, d]
    let (points, rest) ← stringBody rest
    return (n :: points, rest)
  | '\\' :: e :: rest => do
    let c ← shortEscape? e
    let (points, rest) ← stringBody rest
    return (c.toNat :: points, rest)
  | c :: rest =>
    if c.toNat < 32 ∨ c = '\\' then none
    else do
      let (points, rest) ← stringBody rest
      return (c.toNat :: points, rest)

def joinSurrogates : List Nat → List Nat
  | [] => []
  | [n] => [n]
  | high :: low :: rest =>
    if 0xD800 ≤ high ∧ high < 0xDC00 ∧ 0xDC00 ≤ low ∧ low < 0xE000 then
      (0x10000 + (high - 0xD800) * 0x400 + (low - 0xDC00)) :: joinSurrogates rest
    else high :: joinSurrogates (low :: rest)

def string (afterQuote : List Char) : Except DocumentError (Value × List Char) :=
  match stringBody afterQuote with
  | some (points, rest) => .ok (.ofPoints (joinSurrogates points), rest)
  | none => .error .malformed

def fraction (cs : List Char) : List Char × List Char :=
  match cs with
  | '.' :: rest =>
    let digits := rest.takeWhile Char.isDigit
    if digits.isEmpty then ([], cs) else ('.' :: digits, rest.dropWhile Char.isDigit)
  | _ => ([], cs)

def exponent (cs : List Char) : List Char × List Char :=
  match cs with
  | mark :: rest =>
    if mark = 'e' ∨ mark = 'E' then
      let (sign, rest) :=
        match rest with
        | '+' :: tail => (['+'], tail)
        | '-' :: tail => (['-'], tail)
        | _ => ([], rest)
      let digits := rest.takeWhile Char.isDigit
      if digits.isEmpty then ([], cs)
      else (mark :: sign ++ digits, rest.dropWhile Char.isDigit)
    else ([], cs)
  | [] => ([], cs)

/-- A number: an integer unless it has a fraction or an exponent. -/
def number (negative : Bool) (cs : List Char) : Except DocumentError (Value × List Char) :=
  let (whole, rest) :=
    match cs with
    | '0' :: rest => (['0'], rest)
    | _ => (cs.takeWhile Char.isDigit, cs.dropWhile Char.isDigit)
  let (fraction, rest) := fraction rest
  let (exponent, rest) := exponent rest
  if whole.isEmpty then .error .malformed
  else if fraction.isEmpty && exponent.isEmpty then
    match Text.readNumeral whole with
    | .ok n => .ok (.integer (if negative then -(n : Int) else n), rest)
    | .error count => .error (.overlong count)
  else
    match Binary64.unsigned? negative (whole ++ fraction ++ exponent) with
    | some x => .ok (.real x, rest)
    | none => .error .malformed

mutual

def value : Nat → List Char → Except DocumentError (Value × List Char)
  | 0, _ => .error .malformed
  | fuel + 1, cs =>
    match cs with
    | '"' :: rest => string rest
    | '[' :: rest =>
      match skipBlanks rest with
      | ']' :: rest => .ok (.list [], rest)
      | rest => do
        let (items, rest) ← items fuel rest
        return (.list items, rest)
    | '\x7b' :: rest =>
      match skipBlanks rest with
      | '\x7d' :: rest => .ok (.mapping [], rest)
      | rest => do
        let (members, rest) ← members fuel rest
        return (.mapping (Value.mappingOf members), rest)
    | 'n' :: 'u' :: 'l' :: 'l' :: rest => .ok (.null, rest)
    | 't' :: 'r' :: 'u' :: 'e' :: rest => .ok (.flag true, rest)
    | 'f' :: 'a' :: 'l' :: 's' :: 'e' :: rest => .ok (.flag false, rest)
    | 'N' :: 'a' :: 'N' :: rest => .ok (.real .nan, rest)
    | 'I' :: 'n' :: 'f' :: 'i' :: 'n' :: 'i' :: 't' :: 'y' :: rest =>
      .ok (.real (.infinite false), rest)
    | '-' :: 'I' :: 'n' :: 'f' :: 'i' :: 'n' :: 'i' :: 't' :: 'y' :: rest =>
      .ok (.real (.infinite true), rest)
    | '-' :: rest => number true rest
    | rest => number false rest

def items : Nat → List Char → Except DocumentError (List Value × List Char)
  | 0, _ => .error .malformed
  | fuel + 1, cs => do
    let (first, rest) ← value fuel cs
    match skipBlanks rest with
    | ']' :: rest => return ([first], rest)
    | ',' :: rest =>
      let (others, rest) ← items fuel (skipBlanks rest)
      return (first :: others, rest)
    | _ => throw .malformed

def members : Nat → List Char → Except DocumentError (List (Value × Value) × List Char)
  | 0, _ => .error .malformed
  | fuel + 1, cs =>
    match cs with
    | '"' :: rest => do
      let (key, rest) ← string rest
      match skipBlanks rest with
      | ':' :: rest =>
        let (first, rest) ← value fuel (skipBlanks rest)
        match skipBlanks rest with
        | '\x7d' :: rest => return ([(key, first)], rest)
        | ',' :: rest =>
          let (others, rest) ← members fuel (skipBlanks rest)
          return ((key, first) :: others, rest)
        | _ => throw .malformed
      | _ => throw .malformed
    | _ => .error .malformed

end

/-- The value of a whole text. Each level of `value` and each item takes up a character. -/
def read (text : List Char) : Except DocumentError Value := do
  let (v, rest) ← value (2 * text.length + 2) (skipBlanks text)
  if (skipBlanks rest).isEmpty then return v else throw .malformed

end Crontab.Json
