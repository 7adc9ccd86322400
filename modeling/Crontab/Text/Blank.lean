/-! The three sets of blank characters and the trimming of a text. -/
namespace Crontab.Text

def isSeparator (c : Char) : Bool :=
  c == ' ' || c == '\t'

/-- Blanks that may surround an atom: the space and U+0009 to U+000D. -/
def isAsciiBlank (c : Char) : Bool :=
  c == ' ' || (9 ≤ c.toNat && c.toNat ≤ 13)

/-- Unicode white space, with the information separators U+001C to U+001F. -/
def isBlankPoint (n : Nat) : Bool :=
  n == 0x20 || (9 ≤ n && n ≤ 13) || (0x1C ≤ n && n ≤ 0x1F) || n == 0x85 || n == 0xA0 ||
    n == 0x1680 || (0x2000 ≤ n && n ≤ 0x200A) || n == 0x2028 || n == 0x2029 || n == 0x202F ||
    n == 0x205F || n == 0x3000

def isBlank (c : Char) : Bool :=
  isBlankPoint c.toNat

section Trim

variable {α : Type} (p : α → Bool) (s : List α)

def trimStart : List α :=
  s.dropWhile p

def trimEnd : List α :=
  (s.reverse.dropWhile p).reverse

def trim : List α :=
  trimEnd p (trimStart p s)

end Trim

def strip (s : String) : String :=
  .ofList (trim isBlank s.toList)

theorem isBlank_of_isAsciiBlank {c : Char} (h : isAsciiBlank c = true) : isBlank c = true := by
  simp only [isAsciiBlank, Bool.or_eq_true, beq_iff_eq] at h
  rcases h with rfl | h
  · decide
  · simp [isBlank, isBlankPoint, h]

theorem isAsciiBlank_of_isSeparator {c : Char} (h : isSeparator c = true) :
    isAsciiBlank c = true := by
  simp only [isSeparator, Bool.or_eq_true, beq_iff_eq] at h
  rcases h with rfl | rfl <;> decide

theorem takeWhile_append_trimStart (p : Char → Bool) (s : List Char) :
    s.takeWhile p ++ trimStart p s = s :=
  List.takeWhile_append_dropWhile

end Crontab.Text
