import Crontab.Atom

/-! Fields: non-empty lists of atoms, as the set of numbers that the atoms produce. -/
namespace Crontab

structure Field where
  head : Atom
  tail : List Atom
deriving DecidableEq, Repr

inductive FieldError where
  | noAtoms
  | noSuchAtom
  | placeTooBig
deriving DecidableEq, Repr

namespace FieldError

def message : FieldError → String
  | noAtoms => "Field specification has no atoms"
  | noSuchAtom => "tuple index out of range"
  | placeTooBig => "cannot fit 'int' into an index-sized integer"

end FieldError

namespace Field

def atoms (f : Field) : List Atom :=
  f.head :: f.tail

def ofAtoms : List Atom → Except FieldError Field
  | [] => .error .noAtoms
  | a :: rest => .ok ⟨a, rest⟩

def placeBound : Int := 9223372036854775808

/-- The atom at a place of 64 bits; places below zero count from the end. -/
def get (f : Field) (i : Int) : Except FieldError Atom :=
  let place := if i < 0 then i + f.atoms.length else i
  if i < -placeBound ∨ placeBound ≤ i then .error .placeTooBig
  else if place < 0 then .error .noSuchAtom
  else match f.atoms[place.toNat]? with
    | some a => .ok a
    | none => .error .noSuchAtom

def values (f : Field) : Except ProgressionError (List Int) :=
  enumerateAll f.atoms

def mask (f : Field) : Except ProgressionError Nat :=
  f.atoms.foldlM (fun m a => return m ||| (← a.mask)) 0

/-- Membership by the mask, which is not looked at for numbers that no mask can hold. -/
def contains (f : Field) (v : Int) : Except ProgressionError Bool :=
  if 0 ≤ v ∧ v < maskBits then return (← f.mask).testBit v.toNat else return false

/-- A legal number of the field: some atom reaches it in whole steps. -/
def Allows (f : Field) (v : Int) : Prop :=
  ∃ a ∈ f.atoms, a.first ≤ v ∧ v ≤ a.last ∧ a.step ∣ v - a.first

def text (f : Field) : String :=
  String.intercalate "," (f.atoms.map Atom.text)

end Field

end Crontab
