import Crontab.Atom
import Crontab.Atom.Shape
import Crontab.ReadError

/-! Reading an atom: its shape, then its numerals, then the test against the domain. -/
namespace Crontab.Atom

def number (digits : List Char) : Except ReadError Int :=
  match Text.readNumeral digits with
  | .ok n => .ok n
  | .error count => .error (.overlong count)

def number? : Option (List Char) → Except ReadError (Option Int)
  | none => .ok none
  | some digits => (number digits).map some

/-- The progression of a shape; the numerals are converted from left to right. -/
def ofShape (d : Domain) : Shape → Except ReadError Atom
  | .star step? => do
    return every d (← number? step?)
  | .numbers first last? step? => do
    let a ← number first
    let b? ← number? last?
    let n? ← number? step?
    return match b?, n? with
      | none, none => single d a
      | _, _ => between d a b? n?

def read (d : Domain) (text : String) : Except ReadError Atom :=
  match Shape.read? text.toList with
  | none => .error (.refused ⟨.malformedAtom text, text, none⟩)
  | some shape => do
    let atom ← ofShape d shape
    if atom.Valid d then return atom
    else .error (.outOfRange d text)

end Crontab.Atom
