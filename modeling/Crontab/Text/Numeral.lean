import Crontab.Text.Blank

/-! Decimal numerals: reading with a limit on the digits, writing, and integer literals. -/
namespace Crontab.Text

/-- The zeros of the decimal digits of all scripts; the other nine follow each of them. -/
def digitZeros : List Nat :=
  [0x0030, 0x0660, 0x06F0, 0x07C0, 0x0966, 0x09E6, 0x0A66, 0x0AE6, 0x0B66, 0x0BE6, 0x0C66, 0x0CE6,
   0x0D66, 0x0DE6, 0x0E50, 0x0ED0, 0x0F20, 0x1040, 0x1090, 0x17E0, 0x1810, 0x1946, 0x19D0, 0x1A80,
   0x1A90, 0x1B50, 0x1BB0, 0x1C40, 0x1C50, 0xA620, 0xA8D0, 0xA900, 0xA9D0, 0xA9F0, 0xAA50, 0xABF0,
   0xFF10, 0x104A0, 0x10D30, 0x11066, 0x110F0, 0x11136, 0x111D0, 0x112F0, 0x11450, 0x114D0,
   0x11650, 0x116C0, 0x11730, 0x118E0, 0x11950, 0x11C50, 0x11D50, 0x11DA0, 0x16A60, 0x16AC0,
   0x16B50, 0x1D7CE, 0x1D7D8, 0x1D7E2, 0x1D7EC, 0x1D7F6, 0x1E140, 0x1E2F0, 0x1E950, 0x1FBF0]

def digitValue? (c : Char) : Option Nat :=
  (digitZeros.find? fun z => z ≤ c.toNat && c.toNat ≤ z + 9).map (c.toNat - ·)

def ofDigitsIn (base : Nat) (digits : List Nat) : Nat :=
  digits.foldl (fun n d => base * n + d) 0

def ofDigits (digits : List Nat) : Nat :=
  ofDigitsIn 10 digits

def digitOf (c : Char) : Nat :=
  c.toNat - 48

/-- A numeral with more digits than this is not converted; leading zeros count. -/
def digitLimit : Nat := 4300

def readNumeral (digits : List Char) : Except Nat Nat :=
  if digitLimit < digits.length then .error digits.length else .ok (ofDigits (digits.map digitOf))

def overlongMessage (digits : Nat) : String :=
  s!"Exceeds the limit (4300 digits) for integer string conversion: value has {digits} digits; " ++
    "use sys.set_int_max_str_digits() to increase the limit"

def unwritableMessage : String :=
  "Exceeds the limit (4300 digits) for integer string conversion; " ++
    "use sys.set_int_max_str_digits() to increase the limit"

def hexValue? (c : Char) : Option Nat :=
  if c.isDigit then some (c.toNat - 48)
  else if 'a' ≤ c ∧ c ≤ 'f' then some (c.toNat - 87)
  else if 'A' ≤ c ∧ c ≤ 'F' then some (c.toNat - 55)
  else none

def digitChar (d : Nat) : Char :=
  Char.ofNat (d + 48)

def numeral (n : Nat) : List Char :=
  if n < 10 then [digitChar n] else numeral (n / 10) ++ [digitChar (n % 10)]

def decimal : Int → String
  | .ofNat n => .ofList (numeral n)
  | .negSucc n => .ofList ('-' :: numeral (n + 1))

/-- The decimal text of an integer that has no more digits than the limit. -/
def decimal? (n : Int) : Option String :=
  if n.natAbs < Nat.pow 10 digitLimit then some (decimal n) else none

def padded (width : Nat) (n : Nat) : String :=
  let digits := numeral n
  .ofList (List.replicate (width - digits.length) '0' ++ digits)

/-- Blanks around a literal: among the ASCII characters only the ASCII blanks. -/
def isLiteralBlank (c : Char) : Bool :=
  if c.toNat < 127 then isAsciiBlank c else isBlank c

def asciiDigit (c : Char) : Char :=
  (digitValue? c).elim c digitChar

/-- A numeral without its underscores; each of them must stand between two ASCII digits. -/
def joinDigits? : List Char → Option (List Char)
  | [] => some []
  | '_' :: _ => none
  | c :: '_' :: d :: rest =>
    if c.isDigit && d.isDigit then (joinDigits? (d :: rest)).map (c :: ·) else none
  | c :: rest => (joinDigits? rest).map (c :: ·)

/-- Digit values of a literal's body: single underscores may stand between digits. -/
def literalDigits? : List Char → Option (List Nat)
  | [] => none
  | [c] => (digitValue? c).map ([·])
  | c :: '_' :: rest => do
    let d ← digitValue? c
    return d :: (← literalDigits? rest)
  | c :: rest => do
    let d ← digitValue? c
    return d :: (← literalDigits? rest)

def integerLiteral? (s : String) : Option Int :=
  let body := trim isLiteralBlank s.toList
  let unsigned (cs : List Char) : Option Nat := do
    let digits ← literalDigits? cs
    guard (digits.length ≤ digitLimit)
    return ofDigits digits
  match body with
  | '-' :: rest => (unsigned rest).map fun n => -(n : Int)
  | '+' :: rest => (unsigned rest).map Int.ofNat
  | rest => (unsigned rest).map Int.ofNat

end Crontab.Text
