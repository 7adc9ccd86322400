import Crontab.Text.Numeral

/-! The five fields of an entry and the numbers that each of them allows. -/
namespace Crontab

/-- An inclusive range of integers, empty when `hi < lo`. -/
structure Domain where
  lo : Int
  hi : Int
deriving DecidableEq, Repr

namespace Domain

instance : Membership Int Domain :=
  ⟨fun d v => d.lo ≤ v ∧ v ≤ d.hi⟩

instance (v : Int) (d : Domain) : Decidable (v ∈ d) :=
  inferInstanceAs (Decidable (d.lo ≤ v ∧ v ≤ d.hi))

theorem mem_iff {v : Int} {d : Domain} : v ∈ d ↔ d.lo ≤ v ∧ v ≤ d.hi :=
  Iff.rfl

/-- The range as it is written, if its bounds keep to the digit limit. -/
def text? (d : Domain) : Option String := do
  let lo ← Text.decimal? d.lo
  let hi ← Text.decimal? d.hi
  return "[" ++ lo ++ "," ++ hi ++ "]"

end Domain

inductive FieldKind where
  | minute
  | hour
  | dayOfMonth
  | month
  | dayOfWeek
deriving DecidableEq, Repr

namespace FieldKind

def all : List FieldKind :=
  [minute, hour, dayOfMonth, month, dayOfWeek]

def position : FieldKind → Nat
  | minute => 0
  | hour => 1
  | dayOfMonth => 2
  | month => 3
  | dayOfWeek => 4

/-- Days of the week count from Sunday as 0. -/
def domain : FieldKind → Domain
  | minute => ⟨0, 59⟩
  | hour => ⟨0, 23⟩
  | dayOfMonth => ⟨1, 31⟩
  | month => ⟨1, 12⟩
  | dayOfWeek => ⟨0, 6⟩

def label : FieldKind → String
  | minute => "minute"
  | hour => "hour"
  | dayOfMonth => "day-of-month"
  | month => "month"
  | dayOfWeek => "day-of-week"

theorem domain_subset (k : FieldKind) {v : Int} (h : v ∈ k.domain) : 0 ≤ v ∧ v < 64 := by
  cases k <;> simp only [domain, Domain.mem_iff] at h <;> omega

end FieldKind

end Crontab
