import Crontab.Domain

/-! Atoms: one entry of a field's list, reduced to a progression of numbers. -/
namespace Crontab

/-- The numbers from `first` to `last` in steps of `step`, and the domain they were meant for. -/
structure Atom where
  first : Int
  last : Int
  step : Int
  domain : Domain
deriving DecidableEq, Repr

inductive ProgressionError where
  | zeroStep
  | termTooBig
  | negativeTerm
  | lastTooBig (last : Int)
deriving DecidableEq, Repr

namespace ProgressionError

def message : ProgressionError → String
  | zeroStep => "range() arg 3 must not be zero"
  | termTooBig => "too many digits in integer"
  | negativeTerm => "negative shift count"
  | lastTooBig last =>
    match Text.decimal? last with
    | some last => "Max value " ++ last ++ " is too big for a mask"
    | none => Text.unwritableMessage

end ProgressionError

def maskBits : Nat := 64

/-- A falling progression may start above that bound, but not from this number on. -/
def maskReach : Nat := 69175290276410818321

namespace Atom

def every (d : Domain) (step? : Option Int) : Atom :=
  ⟨d.lo, d.hi, step?.getD 1, d⟩

def single (d : Domain) (value : Int) : Atom :=
  ⟨value, value, 1, d⟩

/-- A range, written `a/n`, `a-b` or `a-b/n`; a missing last number is that of the domain. -/
def between (d : Domain) (first : Int) (last? step? : Option Int) : Atom :=
  ⟨first, last?.getD d.hi, step?.getD 1, d⟩

/-- A legal atom counts upwards through natural numbers of the domain. -/
def Valid (a : Atom) (d : Domain) : Prop :=
  0 ≤ a.first ∧ a.first ≤ a.last ∧ a.first ∈ d ∧ a.last ∈ d ∧ 0 < a.step

instance (a : Atom) (d : Domain) : Decidable (a.Valid d) :=
  inferInstanceAs (Decidable (_ ∧ _))

/-- The number of terms: a rising progression ends at `last`, a falling one above `last + 1`. -/
def length (a : Atom) : Nat :=
  if 0 < a.step then
    if a.last < a.first then 0 else ((a.last - a.first) / a.step).toNat + 1
  else if a.step < 0 then
    if a.first ≤ a.last + 1 then 0 else ((a.first - a.last - 2) / -a.step).toNat + 1
  else 0

def term (a : Atom) (i : Nat) : Int :=
  a.first + i * a.step

def terms (a : Atom) : List Int :=
  (List.range a.length).map a.term

def take (a : Atom) (k : Nat) : Except ProgressionError (List Int) :=
  if a.step = 0 then .error .zeroStep else .ok ((List.range (min k a.length)).map a.term)

def enumerate (a : Atom) : Except ProgressionError (List Int) :=
  if a.step = 0 then .error .zeroStep else .ok a.terms

/-- Terms are monotone, so one is negative only if the first or the last of them is. -/
def hasNegativeTerm (a : Atom) : Bool :=
  0 < a.length && (a.first < 0 || a.term (a.length - 1) < 0)

def mask (a : Atom) : Except ProgressionError Nat :=
  if (maskBits : Int) ≤ a.last then .error (.lastTooBig a.last)
  else if a.step = 0 then .error .zeroStep
  else if 0 < a.length ∧ (maskReach : Int) ≤ a.first then .error .termTooBig
  else if a.hasNegativeTerm then .error .negativeTerm
  else .ok (a.terms.foldl (fun m v => m ||| 1 <<< v.toNat) 0)

def text (a : Atom) : String :=
  Text.decimal a.first ++ "-" ++ Text.decimal a.last ++ "/" ++ Text.decimal a.step

end Atom

def dropRepeats : List Int → List Int
  | [] => []
  | [v] => [v]
  | v :: w :: rest => if v = w then dropRepeats (w :: rest) else v :: dropRepeats (w :: rest)

def enumerateAll (atoms : List Atom) : Except ProgressionError (List Int) := do
  let lists ← atoms.mapM Atom.enumerate
  return dropRepeats (lists.flatten.mergeSort fun v w => decide (v ≤ w))

end Crontab
