import Crontab.Settings.Value

/-! Texts that hold one value, in one of two formats. -/
namespace Crontab

inductive Format where
  | json
  | yaml
deriving DecidableEq, Repr

inductive DocumentError where
  | malformed
  | overlong (digits : Nat)
  | emptyNumeral (base : Nat)
  | weightTooBig
  | noSuchCharacter
  | characterTooBig
deriving DecidableEq, Repr

end Crontab
