import Crontab.Binary64.Shortest
import Crontab.Text.Quoted

/-! The values that settings may be given as. -/
namespace Crontab

/-- Text with surrogates that have no partner is kept apart, by its code points. -/
inductive Value where
  | null
  | flag (value : Bool)
  | integer (value : Int)
  | real (value : Binary64)
  | text (value : String)
  | unpaired (points : List Nat)
  | list (items : List Value)
  | mapping (pairs : List (Value × Value))
deriving Repr

namespace Value

def ofPoints (points : List Nat) : Value :=
  if points.all fun n => n.isValidChar then text (.ofList (points.map Char.ofNat))
  else unpaired points

mutual

def debugText? : Value → Option String
  | null => some "None"
  | flag b => some (if b then "True" else "False")
  | integer n => Text.decimal? n
  | real x => some x.text
  | text s => some (Text.quoted s)
  | unpaired points => some (Text.quotedPoints points)
  | list items => return "[" ++ String.intercalate ", " (← itemTexts? items) ++ "]"
  | mapping pairs => return "\x7b" ++ String.intercalate ", " (← pairTexts? pairs) ++ "\x7d"

def itemTexts? : List Value → Option (List String)
  | [] => some []
  | v :: rest => return (← v.debugText?) :: (← itemTexts? rest)

def pairTexts? : List (Value × Value) → Option (List String)
  | [] => some []
  | (k, v) :: rest =>
    return ((← k.debugText?) ++ ": " ++ (← v.debugText?)) :: (← pairTexts? rest)

end

def isNumber : Value → Bool
  | flag _ => true
  | integer _ => true
  | real _ => true
  | _ => false

/-- A number by its side among the infinities, and as a multiple of a power of two. -/
def number? : Value → Option (Int × Int × Int)
  | flag b => some (0, if b then 1 else 0, 0)
  | integer n => some (0, n, 0)
  | real (.finite negative m e) => some (0, if negative then -(m : Int) else m, e)
  | real (.infinite negative) => some (if negative then -1 else 1, 0, 0)
  | _ => none

def compareNumbers (x y : Int × Int × Int) : Ordering :=
  let unit := min x.2.2 y.2.2
  (compare x.1 y.1).then
    (compare (x.2.1 * (1 <<< (x.2.2 - unit).toNat : Nat))
      (y.2.1 * (1 <<< (y.2.2 - unit).toNat : Nat)))

/-- Keys of a mapping are the same if they are equal numbers, equal texts, or both not a number. -/
def sameKey (a b : Value) : Bool :=
  match a, b with
  | null, null => true
  | real .nan, real .nan => true
  | text s, text t => s == t
  | unpaired s, unpaired t => s == t
  | _, _ =>
    match a.number?, b.number? with
    | some x, some y => compareNumbers x y == .eq
    | _, _ => false

def insertPair (key value : Value) : List (Value × Value) → List (Value × Value)
  | [] => [(key, value)]
  | (k, v) :: rest =>
    if k.sameKey key then (k, value) :: rest else (k, v) :: insertPair key value rest

/-- The mapping of a list of pairs: a repeated key keeps its first place and its last value. -/
def mappingOf (pairs : List (Value × Value)) : List (Value × Value) :=
  pairs.foldl (fun found (k, v) => insertPair k v found) []

def lookup? (key : String) (pairs : List (Value × Value)) : Option Value :=
  (pairs.find? fun (k, _) => k.sameKey (text key)).map Prod.snd

def kindName : Value → String
  | null => "NoneType"
  | flag _ => "bool"
  | integer _ => "int"
  | real _ => "float"
  | text _ => "str"
  | unpaired _ => "str"
  | list _ => "list"
  | mapping _ => "dict"

end Value

end Crontab
