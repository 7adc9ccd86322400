import Crontab.Settings
import Crontab.Settings.Value

/-! Settings from a mapping of names to values, and from environment variables. -/
namespace Crontab

inductive MappingError where
  | unknownKeys (keys : List (List Nat))
  | keyNotText (key : Value)
  | keysNotComparable (first second : Value)
  | notAnInteger (name shown : String)
  | unwritable
  | infinite
  | unacceptable (cause : SettingsError)
deriving Repr

namespace MappingError

/-- The message by its code points: a key in it may hold surrogates. -/
def message : MappingError → List Nat
  | unknownKeys keys =>
    Text.points "Unknown configuration keys: " ++ (Text.points ", ").intercalate keys
  | keyNotText key =>
    Text.points ("sequence item 0: expected str instance, " ++ key.kindName ++ " found")
  | keysNotComparable first second =>
    Text.points ("'<' not supported between instances of '" ++ second.kindName ++ "' and '" ++
      first.kindName ++ "'")
  | notAnInteger name shown => Text.points (name ++ " must be an integer, got " ++ shown)
  | unwritable => Text.points Text.unwritableMessage
  | infinite => Text.points "cannot convert float infinity to integer"
  | unacceptable cause => Text.points cause.message

end MappingError

namespace Settings

def names : List String :=
  ["max_invalid_dates", "min_year", "max_year"]

/-- The complaint about a value that is no integer shows the value, if it can be written. -/
def integerError (name : String) (value : Value) : MappingError :=
  match value.debugText? with
  | some shown => .notAnInteger name shown
  | none => .unwritable

/-- The integer that a value stands for; numbers lose their fractions, text is an integer literal. -/
def toInteger (name : String) (value : Value) : Except MappingError Int :=
  match value with
  | .integer n => .ok n
  | .real (.infinite _) => .error .infinite
  | .real x =>
    match x.truncate with
    | some n => .ok n
    | none => .error (integerError name value)
  | .text s =>
    match Text.integerLiteral? s with
    | some n => .ok n
    | none => .error (integerError name value)
  | _ => .error (integerError name value)

def unknownError (keys : List Value) : Option MappingError :=
  let texts := keys.filterMap fun
    | .text s => some (Text.points s)
    | .unpaired points => some points
    | _ => none
  let clash := (keys.zip (keys.drop 1)).find? fun (a, b) =>
    !((a.kindName == "str" && b.kindName == "str") || (a.isNumber && b.isNumber))
  let least := keys.foldl (fun least? k =>
    match least? with
    | none => some k
    | some l =>
      match l.number?, k.number? with
      | some x, some y => if Value.compareNumbers y x == .lt then some k else some l
      | _, _ => some l) none
  if texts.length = keys.length then
    if texts.isEmpty then none else some (.unknownKeys (texts.mergeSort fun s t => !decide (t < s)))
  else
    match clash, least with
    | some (a, b), _ => some (.keysNotComparable a b)
    | none, some k => some (.keyNotText k)
    | none, none => none

def nameOf? (key : Value) : Option String :=
  names.find? fun name => key.sameKey (.text name)

/-- Settings from a mapping: every key is a name, every value an integer, the rest is as usual. -/
def ofMapping (pairs : List (Value × Value)) : Except MappingError Settings := do
  let unknown := (pairs.map Prod.fst).filter fun key => (nameOf? key).isNone
  if let some e := unknownError unknown then throw e
  let named := pairs.filterMap fun (key, value) => (nameOf? key).map (·, value)
  let numbers ← named.mapM fun (name, value) => return (name, ← toInteger name value)
  let get (name : String) (usual : Int) : Int := (numbers.lookup name).getD usual
  match make (get "max_invalid_dates" 100) (get "min_year" 1) (get "max_year" 9999) with
  | .ok settings => return settings
  | .error cause => throw (.unacceptable cause)

end Settings

inductive EnvironmentError where
  | unencodable (position : Nat) (surrogates : List Nat)
  | mapping (cause : MappingError)
deriving Repr

namespace EnvironmentError

def message : EnvironmentError → List Nat
  | unencodable position surrogates =>
    let place :=
      match surrogates with
      | [n] => "character '\\u" ++ .ofList (Text.hexPadded 4 n) ++ "' in position " ++
          Text.decimal position
      | _ => "characters in position " ++ Text.decimal position ++ "-" ++
          Text.decimal (position + surrogates.length - 1 : Nat)
    Text.points ("'utf-8' codec can't encode " ++ place ++ ": surrogates not allowed")
  | mapping cause => cause.message

end EnvironmentError

namespace Settings

def variableName (start : List Nat) (name : String) : List Nat :=
  start ++ Text.points (.ofList (name.toList.map Char.toUpper))

/-- A text without the blanks around it; a blank one is as good as absent. -/
def stripped? (text? : Option (List Nat)) : Option Value := do
  let stripped := Text.trim Text.isBlankPoint (← text?)
  if stripped.isEmpty then none else some (.ofPoints stripped)

def fromVariable (lookup : List Nat → Option (List Nat)) (start : List Nat) (name : String) :
    Except EnvironmentError (String × Option Value) :=
  let sought := variableName start name
  match Text.unencodable? sought with
  | some (position, surrogates) => .error (.unencodable position surrogates)
  | none => .ok (name, stripped? (lookup sought))

def ofEnvironment (lookup : List Nat → Option (List Nat)) (start : List Nat) :
    Except EnvironmentError Settings := do
  let given ← names.mapM (fromVariable lookup start)
  let pairs := given.filterMap fun (name, value?) => value?.map fun value => (.text name, value)
  (ofMapping pairs).mapError .mapping

end Settings

end Crontab
