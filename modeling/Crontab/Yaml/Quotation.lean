import Crontab.Yaml.Scalar

/-! Quoted scalars: their escapes and the folding of their lines. -/
namespace Crontab.Yaml

def isBreak (c : Char) : Bool :=
  c == '\n' || c.toNat == 0x85 || c.toNat == 0x2028 || c.toNat == 0x2029

def isWhite (c : Char) : Bool :=
  c == ' ' || c == '\t' || isBreak c

def startsWhite : List Char → Bool
  | [] => true
  | c :: _ => isWhite c

/-- The character that a line break stands for: a line feed, or a separator as it is. -/
def breakPoint (c : Char) : Nat :=
  if c.toNat = 0x2028 ∨ c.toNat = 0x2029 then c.toNat else 10

/-- Whether a line starts with the mark between documents, three times `mark`. -/
def startsDocumentMark (mark : Char) : List Char → Bool
  | a :: b :: c :: rest => a == mark && b == mark && c == mark && startsWhite rest
  | _ => false

def startsMark (cs : List Char) : Bool :=
  startsDocumentMark '-' cs || startsDocumentMark '.' cs

/-- One line break folds into a space, and of more than one the first is dropped. -/
def folded (first : Char) (others : List Nat) : List Nat :=
  if breakPoint first ≠ 10 then breakPoint first :: others
  else if others.isEmpty then [32] else others

namespace Quotation

def breaks : Nat → List Char → Except DocumentError (List Nat × List Char)
  | 0, _ => .error .malformed
  | fuel + 1, cs =>
    if startsMark cs then .error .malformed
    else
      match cs.dropWhile fun c => c == ' ' || c == '\t' with
      | [] => .ok ([], [])
      | c :: rest =>
        if isBreak c then do
          let (more, rest) ← breaks fuel rest
          return (breakPoint c :: more, rest)
        else .ok ([], c :: rest)

def shortEscape? : Char → Option Nat
  | '0' => some 0x00
  | 'a' => some 0x07
  | 'b' => some 0x08
  | 't' => some 0x09
  | '\t' => some 0x09
  | 'n' => some 0x0A
  | 'v' => some 0x0B
  | 'f' => some 0x0C
  | 'r' => some 0x0D
  | 'e' => some 0x1B
  | ' ' => some 0x20
  | '"' => some 0x22
  | '/' => some 0x2F
  | '\\' => some 0x5C
  | 'N' => some 0x85
  | '_' => some 0xA0
  | 'L' => some 0x2028
  | 'P' => some 0x2029
  | _ => none

def hexWidth? : Char → Option Nat
  | 'x' => some 2
  | 'u' => some 4
  | 'U' => some 8
  | _ => none

def escape (fuel : Nat) : List Char → Except DocumentError (List Nat × List Char)
  | [] => .error .malformed
  | c :: rest =>
    match shortEscape? c, hexWidth? c with
    | some n, _ => .ok ([n], rest)
    | none, some width =>
      let digits := (rest.take width).filterMap Text.hexValue?
      if digits.length < width then .error .malformed
      else
        let n := Text.ofDigitsIn 16 digits
        if 0x80000000 ≤ n then .error .characterTooBig
        else if 0x110000 ≤ n then .error .noSuchCharacter
        else .ok ([n], rest.drop width)
    | none, none => if isBreak c then breaks fuel rest else .error .malformed

def body (quote : Char) : Nat → List Char → Except DocumentError (List Nat × List Char)
  | 0, _ => .error .malformed
  | _, [] => .error .malformed
  | fuel + 1, c :: rest =>
    if c = quote then
      match quote, rest with
      | '\'', '\'' :: rest => do
        let (points, rest) ← body quote fuel rest
        return (39 :: points, rest)
      | _, _ => .ok ([], rest)
    else if quote = '"' ∧ c = '\\' then do
      let (points, rest) ← escape fuel rest
      let (later, rest) ← body quote fuel rest
      return (points ++ later, rest)
    else if c = ' ' ∨ c = '\t' then
      let blanks := (c :: rest).takeWhile fun d => d == ' ' || d == '\t'
      match (c :: rest).dropWhile fun d => d == ' ' || d == '\t' with
      | [] => .error .malformed
      | d :: rest =>
        if isBreak d then body quote fuel (d :: rest)
        else do
          let (later, rest) ← body quote fuel (d :: rest)
          return (blanks.map Char.toNat ++ later, rest)
    else if isBreak c then do
      let (others, rest) ← breaks fuel rest
      let (later, rest) ← body quote fuel rest
      return (folded c others ++ later, rest)
    else do
      let (later, rest) ← body quote fuel rest
      return (c.toNat :: later, rest)

def read (quote : Char) (cs : List Char) : Except DocumentError (List Nat × List Char) :=
  body quote (cs.length + 1) cs

end Quotation

end Crontab.Yaml
