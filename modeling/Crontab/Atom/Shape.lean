import Crontab.Text.Numeral

/-! The written shapes of atoms: `*`, `a` and `a-b`, each with an optional step `/n`. -/
namespace Crontab.Atom

inductive Shape where
  | star (step? : Option (List Char))
  | numbers (first : List Char) (last? step? : Option (List Char))
deriving DecidableEq, Repr

namespace Shape

def IsNumeral (cs : List Char) : Prop :=
  cs ≠ [] ∧ ∀ c ∈ cs, c.isDigit = true

/-- The grammar: what may be written for a shape, blanks at the ends apart. -/
inductive Spells : Shape → List Char → Prop where
  | star : Spells (.star none) ['*']
  | starStep {n : List Char} : IsNumeral n → Spells (.star (some n)) ('*' :: '/' :: n)
  | single {a : List Char} : IsNumeral a → Spells (.numbers a none none) a
  | singleStep {a n : List Char} : IsNumeral a → IsNumeral n →
      Spells (.numbers a none (some n)) (a ++ '/' :: n)
  | range {a b : List Char} : IsNumeral a → IsNumeral b →
      Spells (.numbers a (some b) none) (a ++ '-' :: b)
  | rangeStep {a b n : List Char} : IsNumeral a → IsNumeral b → IsNumeral n →
      Spells (.numbers a (some b) (some n)) (a ++ '-' :: b ++ '/' :: n)

/-- The text of an atom is its spelling with ASCII blanks on both sides. -/
def Writes (shape : Shape) (text : List Char) : Prop :=
  ∃ before core after, text = before ++ core ++ after ∧ shape.Spells core ∧
    (∀ c ∈ before, Text.isAsciiBlank c = true) ∧ ∀ c ∈ after, Text.isAsciiBlank c = true

def step? : List Char → Option (Option (List Char))
  | [] => some none
  | '/' :: digits =>
    if !digits.isEmpty && digits.all Char.isDigit then some (some digits) else none
  | _ => none

def ofCore? (core : List Char) : Option Shape :=
  match core with
  | '*' :: rest => (step? rest).map star
  | _ =>
    let first := core.takeWhile Char.isDigit
    if first.isEmpty then none
    else
      match core.dropWhile Char.isDigit with
      | '-' :: rest =>
        let last := rest.takeWhile Char.isDigit
        if last.isEmpty then none
        else (step? (rest.dropWhile Char.isDigit)).map (numbers first (some last))
      | rest => (step? rest).map (numbers first none)

def read? (text : List Char) : Option Shape :=
  ofCore? (Text.trim Text.isAsciiBlank text)

end Shape

end Crontab.Atom
