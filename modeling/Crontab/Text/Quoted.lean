import Crontab.Text.Points
import Crontab.Text.Unprintable

/-! Quoted text: a quotation shows every character, the ones that do not print by their number. -/
namespace Crontab.Text

def hexDigit (n : Nat) : Char :=
  Char.ofNat (if n < 10 then n + 48 else n + 87)

def hexPadded : Nat → Nat → List Char
  | 0, _ => []
  | width + 1, n => hexPadded width (n / 16) ++ [hexDigit (n % 16)]

def hex (n : Nat) : List Char :=
  hexPadded (if n = 0 then 1 else n.log2 / 4 + 1) n

def escaped (quote : Char) (n : Nat) : List Char :=
  if n = quote.toNat then ['\\', quote]
  else if n = 92 then ['\\', '\\']
  else if n = 9 then ['\\', 't']
  else if n = 10 then ['\\', 'n']
  else if n = 13 then ['\\', 'r']
  else if isPrintable n then [Char.ofNat n]
  else if n < 0x100 then '\\' :: 'x' :: hexPadded 2 n
  else if n < 0x10000 then '\\' :: 'u' :: hexPadded 4 n
  else '\\' :: 'U' :: hexPadded 8 n

/-- An apostrophe in the text asks for double quotes, unless it holds one of those too. -/
def quoteFor (points : List Nat) : Char :=
  if points.contains 39 && !points.contains 34 then '"' else '\''

def quotedPoints (points : List Nat) : String :=
  let quote := quoteFor points
  .ofList (quote :: points.flatMap (escaped quote) ++ [quote])

def quoted (s : String) : String :=
  quotedPoints (points s)

end Crontab.Text
